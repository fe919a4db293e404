import ProgramGraph.Document.Encode
import ProgramGraph.Main
import ProgramGraph.Proofs.Beliefs.Delivery
import ProgramGraph.Proofs.Beliefs.Forwarding
import ProgramGraph.Proofs.Beliefs.Pinning
import ProgramGraph.Proofs.Beliefs.Primitives
import ProgramGraph.Proofs.Beliefs.Recorders
import ProgramGraph.Proofs.Beliefs.Rising
import ProgramGraph.Proofs.Building.Constructors
import ProgramGraph.Proofs.Commands.Accounting
import ProgramGraph.Proofs.Configurations.Assignments
import ProgramGraph.Proofs.Configurations.Files
import ProgramGraph.Proofs.Lookups.Bases
import ProgramGraph.Proofs.Lookups.Completeness
import ProgramGraph.Proofs.Lookups.Enumerations
import ProgramGraph.Proofs.Orders.Swapping
import ProgramGraph.Proofs.Passes.Pipelines
import ProgramGraph.Proofs.Reading.Documents
import ProgramGraph.Proofs.Rerun.Stability
import ProgramGraph.Proofs.Sessions.Accounts
import ProgramGraph.Proofs.Sessions.Finality
import ProgramGraph.Proofs.Sessions.Following
import ProgramGraph.Proofs.Sessions.Integrity
import ProgramGraph.Proofs.Sessions.Observations
import ProgramGraph.Proofs.Sessions.Parsing
import ProgramGraph.Proofs.Sessions.Placement
import ProgramGraph.Proofs.Translation.Faithful
import ProgramGraph.Proofs.Types.Joining
import ProgramGraph.Proofs.Types.Spacing
import ProgramGraph.Proofs.Walks.Tables
import ProgramGraph.Type.Encode
