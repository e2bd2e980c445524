import AttributeFilter.Configuration.Loading
import AttributeFilter.Sample.Catalog
import AttributeFilter.Proofs.Service.Selection
import AttributeFilter.Proofs.Query.Reach
import AttributeFilter.Proofs.Query.Order
import AttributeFilter.Proofs.Record.History
import AttributeFilter.Proofs.Schema.Building
import AttributeFilter.Proofs.Schema.Resolution
import AttributeFilter.Proofs.Service.Targets
import AttributeFilter.Proofs.Parameter.RoundTrip
import AttributeFilter.Proofs.Filter.Extraction
import AttributeFilter.Proofs.Filter.Description
import AttributeFilter.Proofs.Filter.Acceptance
import AttributeFilter.Proofs.Filter.Lists
import AttributeFilter.Proofs.Filter.Failure
import AttributeFilter.Proofs.Service.Construction
import AttributeFilter.Proofs.Service.Failure
import AttributeFilter.Proofs.Query.StableSort
import AttributeFilter.Proofs.Record.Uniform
import AttributeFilter.Proofs.Filter.Contribution
import AttributeFilter.Proofs.Filter.ExactSearch
import AttributeFilter.Proofs.Query.Identification
import AttributeFilter.Proofs.Pattern.Translation
import AttributeFilter.Proofs.Filter.ReferenceSearch
import AttributeFilter.Proofs.Pattern.Placement
import AttributeFilter.Proofs.Service.Items
import AttributeFilter.Proofs.Query.Visibility
import AttributeFilter.Proofs.Filter.Rearrangement
import AttributeFilter.Proofs.Filter.Alternatives
import AttributeFilter.Proofs.Filter.Shape
import AttributeFilter.Proofs.Keyed.Merge
import AttributeFilter.Proofs.Service.Description
import AttributeFilter.Proofs.Schema.Candidates
import AttributeFilter.Proofs.Schema.Subresources
import AttributeFilter.Proofs.Parameter.Independence
import AttributeFilter.Proofs.Record.Coercion
import AttributeFilter.Proofs.Parameter.Assignment
