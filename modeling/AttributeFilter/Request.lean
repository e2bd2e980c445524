import AttributeFilter.Parameter.QueryText

/-!
# Requests

What filters see of a request: its parameters, or the query text to read them from. Base names
read from a query text lose their dots; a filter that declares dotted properties reads the text
again to get them back.

## Main definitions

* `Request`: parameters with distinct names, or a query text.
* `Request.ofParameters`, `Request.ofQueryText`: the two sources of a request.
* `Request.query`: the parameters, base names flattened.
* `Request.expanded`: the parameters with dots kept, as far as they can be recovered.

## Main results

* `Request.nodup_keys_query`, `Request.nodup_keys_expanded`: no parameter comes twice.
-/

namespace AttributeFilter

/-- The query side of a request. -/
inductive Request
  | parameters (query : Parameters) (distinct : (Keyed.keys query).Nodup)
  | queryText (text : String)

namespace Request

/-- A request of given parameters; a repeated name keeps its first place and its last value. There
is no query text to read again. -/
def ofParameters (pairs : List (String × Parameter)) : Request :=
  parameters (Keyed.ofList pairs) (Keyed.nodup_keys_ofList pairs)

/-- A request as it is transported. -/
def ofQueryText (text : String) : Request :=
  queryText text

/-- The query text that the parameters are read from. -/
def raw? : Request → Option String
  | parameters _ _ => none
  | queryText text => some text

/-- The parameters, base names flattened. -/
def query : Request → Parameters
  | parameters query _ => query
  | queryText text => QueryText.parse .flattened text

def has (request : Request) (name : String) : Bool :=
  Keyed.contains name request.query

/-- The parameters with their dots, if there is a query text to read again. -/
def expanded : Request → Parameters
  | parameters query _ => query
  | queryText text => QueryText.parse .preserved text

theorem nodup_keys_query : (request : Request) → (Keyed.keys request.query).Nodup
  | parameters _ distinct => distinct
  | queryText text => QueryText.nodup_keys_parse .flattened text

theorem nodup_keys_expanded : (request : Request) → (Keyed.keys request.expanded).Nodup
  | parameters _ distinct => distinct
  | queryText text => QueryText.nodup_keys_parse .preserved text

end Request

end AttributeFilter
