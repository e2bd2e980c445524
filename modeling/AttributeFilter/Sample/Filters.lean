import AttributeFilter.Sample.Catalog
import AttributeFilter.Service

/-!
# Sample filters

Filters for the sample catalog: amounts are matched as numbers, names are searched by a part of
them and brands by their country, and products are ordered by price or by the country of their
brand, cheapest first if the request leaves the direction open. They can also be ordered by a colour
that no product has any more, and a request that tries it ends there.

## Main definitions

* `Catalog.families`: the registry of the catalog, as it is built without fault.
* `Catalog.settings`: the configured filters.
* `Catalog.service`: the service for families and filters.
* `Catalog.outOfStock`, `Catalog.dearestFrench`, `Catalog.byColour`: requests to the catalog.
-/

namespace AttributeFilter.Catalog

/-- The registry of the catalog. Its settings have no fault, so it is not empty. -/
def families : Registry :=
  match registry with
  | .ok registry => registry
  | .error _ => { families := [], codes_nodup := List.nodup_nil }

def settings : Settings where
  filters := some [
    ("amounts", { kind := .numeric, properties := some (.plain ["price", "stock"]) }),
    ("texts", {
      kind := .search
      properties := some (.withStrategies [("name", "partial"), ("brand.country", "")]) }),
    ("sorting", {
      kind := .order
      family := some "Product"
      properties := some (.withStrategies
        [("price", "asc"), ("brand.country", ""), ("colour", "")]) })]

/-- The service of the catalog. Its search strategies exist, so it has all filters. -/
def service : Service :=
  match Service.create families settings with
  | .ok service => service
  | .error _ => { registry := families, filters := [], ignored := [] }

/-- A request for the products of French brands that are out of stock. The page is no property of
any filter. -/
def outOfStock : Request :=
  .ofParameters
    [("brand.country", .scalar "FR"), ("stock", .scalar "0"), ("page", .scalar "2")]

/-- A request for the products of French brands, the dearest first. -/
def dearestFrench : Request :=
  .ofParameters [("brand.country", .scalar "FR"), ("order", .map [("price", .scalar "desc")])]

/-- A request to order products by price, and then by their colour. -/
def byColour : Request :=
  .ofParameters [("order", .map [("price", .scalar ""), ("colour", .scalar "desc")])]

end AttributeFilter.Catalog
