import AttributeFilter.Filter.Plan

/-!
# A sample wardrobe

Shirts with a maker. Their attributes have names that do not stay as they are when a request
transports them: one has an underscore, as a name with a dot in its place would arrive, and one has
a blank.

## Main definitions

* `Wardrobe.families`: the registry of the wardrobe.
* `Wardrobe.style`: a search by sleeves and by the name of the maker.
* `Wardrobe.origin`: a search by the home country of the maker.
* `Wardrobe.makers`: a search by a part of the maker.
* `Wardrobe.arrangement`: an order by the name of the maker.
-/

namespace AttributeFilter.Wardrobe

def shirtClass : String := "App\\Entity\\Shirt"

def shirt : FamilySettings where
  dataClass := shirtClass
  fields := [
    ("sleeve_style", { storage := .shortText }),
    ("maker", AttributeSettings.relatedTo { storage := .entityReference } ["Maker"])]

def maker : FamilySettings where
  dataClass := "App\\Entity\\Maker"
  fields := [("name", { storage := .shortText }), ("home country", { storage := .shortText })]

/-- The registry of the wardrobe. Its settings have no fault, so it is not empty. -/
def families : Registry :=
  match Registry.build [("Shirt", shirt), ("Maker", maker)] with
  | .ok registry => registry
  | .error _ => { families := [], codes_nodup := List.nodup_nil }

/-- A search by sleeves, and by the name of the maker. -/
def style : Filter where
  kind := .search
  types := FilterKind.search.defaultTypes
  properties := .ofList [("sleeve_style", some "partial"), ("maker.name", none)]
  family := none
  strategies_exist := by decide

/-- A search by the home country of the maker. -/
def origin : Filter where
  kind := .search
  types := FilterKind.search.defaultTypes
  properties := .ofList [("maker.home country", none)]
  family := none
  strategies_exist := by decide

/-- A search by a part of the maker. Values of the maker are data of another family. -/
def makers : Filter where
  kind := .search
  types := [.entity]
  properties := .ofList [("maker", some "partial")]
  family := none
  strategies_exist := by decide

/-- An order by the name of the maker, ascending unless a request says otherwise. -/
def arrangement : Filter where
  kind := .order
  types := FilterKind.order.defaultTypes
  properties := .ofList [("maker.name", some "asc")]
  family := none
  strategies_exist := by decide

end AttributeFilter.Wardrobe
