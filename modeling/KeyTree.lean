import KeyTree.Edit
import KeyTree.Main
import KeyTree.Sha2.Standard
import KeyTree.Path.Grammar
import KeyTree.Proofs.Derivation
import KeyTree.Proofs.Path.Refusal
import KeyTree.Proofs.Path.Join
import KeyTree.Proofs.Path.Text
import KeyTree.Proofs.Base58.Refusal
import KeyTree.Proofs.Base58.Numeral
import KeyTree.Proofs.Numeral.Moment
import KeyTree.Proofs.Derivation.Stages
import KeyTree.Proofs.Derivation.Resume
import KeyTree.Proofs.Derivation.Independence
import KeyTree.Proofs.CommandLine
import KeyTree.Proofs.Path.Index
import KeyTree.Proofs.ExtendedKey
import KeyTree.Proofs.Separation
import KeyTree.Proofs.Hex
import KeyTree.Proofs.Child
import KeyTree.Proofs.Base58.Length
import KeyTree.Proofs.Base58.Loop
