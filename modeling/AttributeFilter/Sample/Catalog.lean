import AttributeFilter.Record.Store

/-!
# A sample catalog

A small catalog: products with a brand. The seller of a product may be a brand or a maker, so a
dotted name does not go through it; the place it was kept at is of a type outside the closed set.

| name | sku | price | brand (country) |
|------|-----|-------|-----------------|
| Running shoe | SHOE-1 | 19.99 | Acme (FR) |
| Leather boot | BOOT-1 | 89.5 | Bottier (FR) |
| Sun hat | HAT-1 | 12.0 | Sunny (US) |

## Main definitions

* `Catalog.definitions`, `Catalog.registry`: the families of the catalog.
* `Catalog.recordId`: the identifiers of the records, numbered in order.
* `Catalog.store`: three brands and three products.
-/

namespace AttributeFilter.Catalog

def productClass : String := "App\\Entity\\Product"

def brandClass : String := "App\\Entity\\Brand"

def makerClass : String := "App\\Entity\\Maker"

def field (code : String) (storage : StorageType) : String × AttributeSettings :=
  (code, { storage })

def product : FamilySettings where
  dataClass := productClass
  label := some "name"
  identifier := some "sku"
  fields := [
    field "name" .shortText,
    ("sku", { storage := .shortText, isRequired := true }),
    ("price", { storage := .decimal, options := [("description", .string "Unit price")] }),
    field "stock" .integer,
    field "active" .boolean,
    field "released" .date,
    field "description" .longText,
    ("brand", AttributeSettings.withOption
      (AttributeSettings.relatedTo { storage := .entityReference } ["Brand"])
      "serializer" (.object [("max_depth", .integer 1)])),
    ("seller", AttributeSettings.relatedTo { storage := .entityReference } ["Brand", "Maker"]),
    field "legacy_location" (.unrecognized "geo-point")]

def brand : FamilySettings where
  dataClass := brandClass
  label := some "name"
  fields := [field "name" .shortText, field "country" .shortText]

def maker : FamilySettings where
  dataClass := makerClass
  label := some "name"
  fields := [field "name" .shortText]

def definitions : List (String × FamilySettings) :=
  [("Product", product), ("Brand", brand), ("Maker", maker)]

def registry : Except Error Registry :=
  Registry.build definitions

def recordId (index : Nat) : Uuid :=
  .ofNat (0x5a3c1e70_0b1d_4c8e_9f20_000000000000 + index)

def brandRecord (index : Nat) (name country : String) : Record where
  id := recordId index
  family := "Brand"
  values := [("name", .text name), ("country", .text country)]

def productRecord (index : Nat) (name sku : String) (cents : Nat) (stock : Int64) (active : Bool)
    (brandIndex : Nat) (released : Option Date) : Record where
  id := recordId index
  family := "Product"
  values := [
    ("name", .text name),
    ("sku", .text sku),
    ("price", .decimal (.ofDecimal false cents (-2))),
    ("stock", .integer stock),
    ("active", .boolean active),
    ("brand", .reference (recordId brandIndex))] ++
      (released.map fun date => ("released", Value.date date)).toList

def records : List Record := [
  brandRecord 0 "Acme" "FR",
  brandRecord 1 "Bottier" "FR",
  brandRecord 2 "Sunny" "US",
  productRecord 3 "Running shoe" "SHOE-1" 1999 12 true 0 (Date.ofParts? 2024 3 1),
  productRecord 4 "Leather boot" "BOOT-1" 8950 0 false 1 (Date.ofParts? 2023 10 15),
  productRecord 5 "Sun hat" "HAT-1" 1200 40 true 2 none]

def store : Store :=
  Store.empty.insertAll records

end AttributeFilter.Catalog
