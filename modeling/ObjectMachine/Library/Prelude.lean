/-
The library every program is linked with. `wollok.lang` holds the core
classes and `wollok.lib` the well-known objects. Most of their behaviour is
native (Library/Natives.lean); what the language can say itself, it says.
-/
import ObjectMachine.Tree.Build

namespace ObjectMachine.Prelude

open Build

def objectClass : Tree :=
  classNamed "Object" [
    nativeMethod "==" ["other"],
    nativeMethod "identity" [],
    nativeMethod "toString" [],
    nativeMethod "className" [],
    nativeMethod "messageNotUnderstood" ["name", "parameters"],
    method "initialize" [] [],
    method "!=" ["other"] [
      answer (send (send self "==" [reference "other"]) "negate" [])],
    method "equals" ["other"] [answer (send self "==" [reference "other"])],
    method "printString" [] [answer (send self "toString" [])]]

def booleanClass : Tree :=
  classNamed "Boolean" [
    nativeMethod "&&" ["other"],
    nativeMethod "||" ["other"],
    nativeMethod "negate" [],
    nativeMethod "toString" []]

def numberClass : Tree :=
  classNamed "Number" (
    (["+", "-", "*", "/", "%", "<", ">", "<=", ">="].map fun operator =>
      nativeMethod operator ["other"]) ++ [
    nativeMethod "abs" [],
    nativeMethod "toString" [],
    method "even" [] [answer (send (send self "%" [number 2.0]) "==" [number 0.0])],
    method "between" ["min", "max"] [
      answer (send (send self ">=" [reference "min"]) "&&"
        [send self "<=" [reference "max"]])]])

def stringClass : Tree :=
  classNamed "String" [
    nativeMethod "+" ["other"],
    nativeMethod "size" [],
    nativeMethod "toUpperCase" [],
    nativeMethod "toString" [],
    method "isEmpty" [] [answer (send (send self "size" []) "==" [number 0.0])]]

def listClass : Tree :=
  classNamed "List" [
    nativeMethod "add" ["element"],
    nativeMethod "get" ["index"],
    nativeMethod "size" [],
    nativeMethod "isEmpty" [],
    nativeMethod "forEach" ["closure"],
    nativeMethod "map" ["closure"],
    method "first" [] [answer (send self "get" [number 0.0])],
    method "sum" [] [
      var "total" (number 0.0),
      send self "forEach" [closure ["element"] [
        assign "total" (send (reference "total") "+" [reference "element"])]],
      answer (reference "total")]]

def exceptionClass : Tree :=
  classNamed "Exception" [
    bareField "message",
    constructor [] [],
    constructor ["aMessage"] [assign "message" (reference "aMessage")],
    method "message" [] [answer (reference "message")]]

def langPackage : Tree :=
  package "lang" [
    objectClass,
    booleanClass,
    numberClass,
    stringClass,
    listClass,
    classNamed "Closure" [],
    exceptionClass,
    (classNamed "EvaluationError" []).inherits "Exception",
    (classNamed "MessageNotUnderstoodException" []).inherits "Exception"]

def assertObject : Tree :=
  singleton "assert" [
    nativeMethod "that" ["condition"],
    nativeMethod "notThat" ["condition"],
    nativeMethod "equals" ["expected", "actual"],
    method "throwsException" ["block"] [
      tryCatch [send (reference "block") "apply" []] [catchAny "e" [answerNothing]],
      raise (new "AssertionException" [string "Block should have failed"])]]

def libPackage : Tree :=
  package "lib" [
    (classNamed "AssertionException" []).inherits "wollok.lang.Exception",
    singleton "console" [nativeMethod "println" ["value"]],
    assertObject]

/-- The trees of the library. -/
def forest : List Tree := [package "wollok" [langPackage, libPackage]]

end ObjectMachine.Prelude
