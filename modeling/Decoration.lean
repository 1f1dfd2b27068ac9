import Decoration.Command
import Decoration.Main
import Decoration.Proofs.Agreement
import Decoration.Proofs.Checked
import Decoration.Proofs.Description
import Decoration.Proofs.Disciplines
import Decoration.Proofs.Evolution
import Decoration.Proofs.Grouping
import Decoration.Proofs.Independence
import Decoration.Proofs.Instantiation
import Decoration.Proofs.Literals
import Decoration.Proofs.Rearranged
import Decoration.Proofs.Trace.Class
import Decoration.Proofs.Trace.Literal
import Decoration.Proofs.Transparent
import Decoration.Proofs.Undecorated
import Decoration.Proofs.Untouched
import Decoration.Proofs.Assignment
import Decoration.Proofs.Collapse
import Decoration.Proofs.Attributes
import Decoration.Proofs.Insertion
import Decoration.Proofs.Tables
import Decoration.Proofs.Specification
import Decoration.Proofs.Grounded
import Decoration.Proofs.Grounded.Access
import Decoration.Proofs.Grounded.Library
import Decoration.Proofs.Grounded.Engine
import Decoration.Proofs.Ancestry
import Decoration.Proofs.Grounded.Program
