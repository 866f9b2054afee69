import ApiTypings.Main
import ApiTypings.Proofs.Generation.Agreement
import ApiTypings.Proofs.Typing.References
import ApiTypings.Proofs.Generation.Skipping
import ApiTypings.Proofs.Typing.Members
import ApiTypings.Proofs.Source.Snapshot
import ApiTypings.Proofs.Generation.Replacement
import ApiTypings.Proofs.Typing.DeclaredNames
import ApiTypings.Proofs.Typing.Qualification
import ApiTypings.Proofs.Generation.Strictness
import ApiTypings.Proofs.Generation.Outcome
import ApiTypings.Proofs.Decode.Placement
import ApiTypings.Proofs.Typing.Degradation
import ApiTypings.Proofs.Typing.Hoisting
import ApiTypings.Proofs.Typing.Coverage
import ApiTypings.Proofs.Generation.Independence
import ApiTypings.Proofs.Generation.Repetition
import ApiTypings.Proofs.Source.Addresses
import ApiTypings.Proofs.Source.Traces
import ApiTypings.Proofs.Config.RoundTrip
import ApiTypings.Proofs.TypeScript.UrlValue
import ApiTypings.Proofs.Naming.Search
import ApiTypings.Proofs.Naming.Identifiers
import ApiTypings.Proofs.Naming.Paths
import ApiTypings.Proofs.Typing.InlineMembers
import ApiTypings.Proofs.Typing.DeclaredParameters
import ApiTypings.Proofs.Typing.InterfaceNames
import ApiTypings.Proofs.TypeScript.Comments
import ApiTypings.Proofs.Generation.Clearing
import ApiTypings.Proofs.Decode.Absence
import ApiTypings.Proofs.Typing.AliasNames
import ApiTypings.Proofs.Source.Envelopes
import ApiTypings.Proofs.Generation.Verbatim
