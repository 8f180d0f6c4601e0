import Reclass.Text.Split

/-!
# Class names

A class is named in internal form, `a/b/C`, or in qualified form, `a.b.C`. The
two forms differ in the separator only.
-/

set_option autoImplicit false

namespace Reclass.ClassName

/-- The form with slashes. -/
def internal (name : String) : String := Text.replaceChar '.' '/' name

/-- The form with dots. -/
def qualified (name : String) : String := Text.replaceChar '/' '.' name

/-- Whether the name is that of an array type. -/
def isArray (name : String) : Bool := name.toList.head? = some '['

end Reclass.ClassName
