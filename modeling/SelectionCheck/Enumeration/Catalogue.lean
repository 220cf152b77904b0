import SelectionCheck.Enumeration.Basic
import SelectionCheck.Finding
import SelectionCheck.Schema.Type

/-!
# The enumerations that are exchanged by number

Token kinds, operation types and selection classes count from zero, as do the kinds of finding,
where zero is no kind. Kinds of type count from one.
-/

namespace SelectionCheck.Enumeration

def tokenKinds : Enumeration := ⟨"tokenKind", 0, Token.Kind.all.map Token.Kind.label⟩

def operationTypes : Enumeration :=
  ⟨"OperationType", 0, OperationType.all.map OperationType.keyword⟩

def findingKinds : Enumeration := ⟨"ErrorKind", 0, FindingKind.all.map FindingKind.label⟩

def typeKinds : Enumeration := ⟨"typeKind", 1, TypeKind.all.map TypeKind.label⟩

def selectionClasses : Enumeration :=
  ⟨"selectionClass", 0, SelectionClass.all.map SelectionClass.label⟩

def catalogue : List Enumeration :=
  [tokenKinds, operationTypes, findingKinds, typeKinds, selectionClasses]

def ofName? (name : String) : Option Enumeration :=
  catalogue.find? (·.name = name)

end SelectionCheck.Enumeration
