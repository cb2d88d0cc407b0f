import TagCatalog.Query.Document
import TagCatalog.Address.Link
import TagCatalog.View.Action
import TagCatalog.View.Document
import TagCatalog.Catalog.Race
import TagCatalog.Main
import TagCatalog.Proofs.Address.Meaning
import TagCatalog.Proofs.Address.Zones
import TagCatalog.Proofs.Address.Mutation
import TagCatalog.Proofs.View.Bookmark
import TagCatalog.Proofs.Catalog.Retry
import TagCatalog.Proofs.Catalog.Preview
import TagCatalog.Proofs.Catalog.History
import TagCatalog.Proofs.Catalog.Delivery
import TagCatalog.Proofs.Catalog.Skip
import TagCatalog.Proofs.Catalog.Plan
import TagCatalog.Proofs.View.Edit
import TagCatalog.Proofs.View.Save
import TagCatalog.Proofs.View.Discipline
import TagCatalog.Proofs.View.Selection
import TagCatalog.Proofs.Number.Numeral
import TagCatalog.Proofs.Time.Stamp
import TagCatalog.Proofs.View.Constraint
import TagCatalog.Proofs.Catalog.Activity
import TagCatalog.Proofs.Catalog.Session
import TagCatalog.Proofs.Command.Link
import TagCatalog.Proofs.Command.Change
import TagCatalog.Proofs.View.Paging
import TagCatalog.Proofs.View.Return
import TagCatalog.Proofs.View.Replace
import TagCatalog.Proofs.Catalog.Sorting
import TagCatalog.Proofs.View.Precedence
import TagCatalog.Proofs.View.PickList
import TagCatalog.Proofs.Address.Moments
import TagCatalog.Proofs.Query.Document
import TagCatalog.Proofs.View.Columns
import TagCatalog.Proofs.Address.Escape
