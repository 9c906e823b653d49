import SdkCatalog.Main
import SdkCatalog.Proofs.Catalog.Atomicity
import SdkCatalog.Proofs.Catalog.Documentation
import SdkCatalog.Proofs.Catalog.Extraction
import SdkCatalog.Proofs.Catalog.LineBreaks
import SdkCatalog.Proofs.Catalog.Loading
import SdkCatalog.Proofs.Catalog.Regeneration
import SdkCatalog.Proofs.Catalog.Serving
import SdkCatalog.Proofs.Number.Decimal
import SdkCatalog.Proofs.Number.Whole
import SdkCatalog.Proofs.Registry.Sorting
import SdkCatalog.Proofs.Source.Appending
import SdkCatalog.Proofs.Toolbox.Arguments
import SdkCatalog.Proofs.Toolbox.History
import SdkCatalog.Proofs.Source.Configuration
import SdkCatalog.Proofs.Source.DocComment
import SdkCatalog.Proofs.Command.Generation
import SdkCatalog.Proofs.Settings.Outcome
import SdkCatalog.Proofs.Settings.Suffixes
import SdkCatalog.Proofs.Text.Splitting
import SdkCatalog.Proofs.Workspace.Root
import SdkCatalog.Proofs.Journal
