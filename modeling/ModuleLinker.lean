import ModuleLinker.Merge
import ModuleLinker.Proofs.AttributeNames
import ModuleLinker.Proofs.Bytes.SevenBit
import ModuleLinker.Proofs.FileSystem.Writing
import ModuleLinker.Proofs.Identity.Accepted
import ModuleLinker.Proofs.Image.Agreement
import ModuleLinker.Proofs.Image.Attaching
import ModuleLinker.Proofs.Image.WriteBack
import ModuleLinker.Proofs.Loading.Discovery
import ModuleLinker.Proofs.Manifest
import ModuleLinker.Proofs.Merge.Restoring
import ModuleLinker.Proofs.Merge.SideChannels
import ModuleLinker.Proofs.Module.Building
import ModuleLinker.Proofs.NameTables
import ModuleLinker.Proofs.Plan.ResourceFates
import ModuleLinker.Proofs.Plan.Twins
import ModuleLinker.Proofs.Relocation.Accessors
import ModuleLinker.Proofs.Relocation.Closed
import ModuleLinker.Proofs.Relocation.Copy
import ModuleLinker.Proofs.Relocation.DroppedAttributes
import ModuleLinker.Proofs.Relocation.Hiding
import ModuleLinker.Proofs.Relocation.Idempotence
import ModuleLinker.Proofs.Relocation.TidyOutput
import ModuleLinker.Proofs.Relocation.Totality
import ModuleLinker.Proofs.Relocation.Union
import ModuleLinker.Proofs.Relocation.WrittenPlaces
import ModuleLinker.Proofs.Reporting.Errors
import ModuleLinker.Proofs.ResourceNames
import ModuleLinker.Proofs.Signature.CodedIndices
import ModuleLinker.Proofs.SigningKey
import ModuleLinker.Proofs.Traversal
import ModuleLinker.Proofs.Xml.Directives
import ModuleLinker.Proofs.Xml.Members
import ModuleLinker.Proofs.Xml.RoundTrip
import ModuleLinker.Proofs.Xml.Texts
