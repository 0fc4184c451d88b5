/-
Qualified names of the library entities that the language itself relies
on: the classes of literals, the root of every hierarchy, and the
exceptions raised on behalf of the program.
-/

namespace ObjectMachine.CoreNames

/-- The package whose subpackages are visible everywhere, unqualified. -/
def globalPackage : String := "wollok"

def objectClass : String := "wollok.lang.Object"

def booleanClass : String := "wollok.lang.Boolean"

def numberClass : String := "wollok.lang.Number"

def stringClass : String := "wollok.lang.String"

def listClass : String := "wollok.lang.List"

def closureClass : String := "wollok.lang.Closure"

/-- Raised for faults of the machine itself. -/
def evaluationError : String := "wollok.lang.EvaluationError"

def messageNotUnderstood : String := "wollok.lang.MessageNotUnderstoodException"

def assertionException : String := "wollok.lib.AssertionException"

def console : String := "wollok.lib.console"

def assertObject : String := "wollok.lib.assert"

end ObjectMachine.CoreNames
