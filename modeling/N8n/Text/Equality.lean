import Mathlib.Data.List.Basic

/-!
# Equality of texts

Texts are lists of characters. Whether a text is one of several is decided by comparing it with each
of them.
-/

namespace N8n.Text

instance instLawfulBEqText : LawfulBEq (List Char) := inferInstance

end N8n.Text
