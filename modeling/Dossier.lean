import Dossier.Proofs.Event.Dispatch
import Dossier.Proofs.Event.Identifier
import Dossier.Proofs.Filter.Dialects
import Dossier.Proofs.Filter.Grammar
import Dossier.Proofs.Filter.Rendering
import Dossier.Proofs.Filter.Truth
import Dossier.Proofs.Graph.Enlisted
import Dossier.Proofs.Graph.Fixpoint
import Dossier.Proofs.Graph.Isomorphism
import Dossier.Proofs.Graph.Nesting
import Dossier.Proofs.Graph.Occurrences
import Dossier.Proofs.Graph.RoundTrip
import Dossier.Proofs.Graph.Scalars
import Dossier.Proofs.Graph.Writing
import Dossier.Proofs.Search.Aliases
import Dossier.Proofs.Search.Assembly
import Dossier.Proofs.Search.Delivery
import Dossier.Proofs.Search.Items
import Dossier.Proofs.Search.Paths
import Dossier.Proofs.Search.Variation
import Dossier.Proofs.Search.Wording
import Dossier.Proofs.Session.Creation
import Dossier.Proofs.Session.Documents
import Dossier.Proofs.Session.Entities
import Dossier.Proofs.Session.Interruption
import Dossier.Proofs.Session.Listening
import Dossier.Proofs.Session.Outcomes
import Dossier.Proofs.Session.Statements
import Dossier.Proofs.Session.Update
import Dossier.Proofs.Session.Watchdog
import Dossier.Proofs.Sql.Parting
import Dossier.Proofs.Storage.Commit
import Dossier.Settings.Reader
