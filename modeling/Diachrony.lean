import Diachrony.Main
import Diachrony.Recording
import Diachrony.MarkedText
import Diachrony.Paradigm.Template
import Diachrony.Record.Logic
import Diachrony.Proofs.Derivation.Recording
import Diachrony.Proofs.Notation.LogicRoundTrip
import Diachrony.Proofs.Archive.FreshIds
import Diachrony.Proofs.Graph.Atomicity
import Diachrony.Proofs.Graph.Deletion
import Diachrony.Proofs.Application.Recursion
import Diachrony.Proofs.Application.References
import Diachrony.Proofs.Application.Levels
import Diachrony.Proofs.Application.Faults
import Diachrony.Proofs.Derivation.Rechecking
import Diachrony.Proofs.Derivation.Deletion
import Diachrony.Proofs.Retrace.Forward
import Diachrony.Proofs.Graph.Names
import Diachrony.Proofs.Graph.Sequences
import Diachrony.Proofs.Paradigm.Isolation
import Diachrony.Proofs.Derivation.Reapplication
import Diachrony.Proofs.Application.Stress
import Diachrony.Proofs.Notation.ProperPredicate
import Diachrony.Proofs.Notation.ProperSoundChange
import Diachrony.Proofs.Application.Counterparts
import Diachrony.Proofs.Application.Endings
import Diachrony.Proofs.Application.Persistence
import Diachrony.Proofs.Application.OneSound
import Diachrony.Proofs.Reversal.Affixes
import Diachrony.Proofs.Reversal.Sounds
import Diachrony.Proofs.Sounds.LongestSpelling
import Diachrony.Proofs.Sounds.Syllables
import Diachrony.Proofs.Sounds.MarkedText
import Diachrony.Proofs.Application.Categories
import Diachrony.Proofs.Application.ClosestSound
import Diachrony.Proofs.Notation.Location
import Diachrony.Proofs.Notation.Steps
import Diachrony.Proofs.Paradigm.Template
import Diachrony.Proofs.Derivation.Errors
