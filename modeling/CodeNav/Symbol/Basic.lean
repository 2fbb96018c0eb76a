import CodeNav.Span

/-!
# Symbols

What a name can stand for: a type, a method or a variable. Symbols come from a type checker; they
refer to one another by id, and a reference may lead nowhere or to a symbol of the wrong sort.
-/

namespace CodeNav

/-! ## Types, methods, variables -/

inductive TypeKind where
  | classType
  | interfaceType
  | enumType
  | recordType
deriving DecidableEq

namespace TypeKind

def all : List TypeKind := [classType, interfaceType, enumType, recordType]

/-- The word that declares a type of this sort, which is also its name. -/
def keyword : TypeKind → String
  | classType => "class"
  | interfaceType => "interface"
  | enumType => "enum"
  | recordType => "record"

def ofKeyword? (s : String) : Option TypeKind := all.find? (·.keyword = s)

theorem ofKeyword?_keyword (k : TypeKind) : ofKeyword? k.keyword = some k := by
  cases k <;> decide +kernel

end TypeKind

structure TypeSymbol where
  qualifiedName : String
  kind : TypeKind
  superclass : Option SymbolId
  interfaces : List SymbolId
  declaration : Option Span
deriving DecidableEq

/-- The direct supertypes, the superclass first. -/
def TypeSymbol.supertypes (t : TypeSymbol) : List SymbolId :=
  t.superclass.toList ++ t.interfaces

def afterLastDot (s : String) : String :=
  String.ofList (s.toList.reverse.takeWhile (· ≠ '.')).reverse

def TypeSymbol.simpleName (t : TypeSymbol) : String := afterLastDot t.qualifiedName

structure MethodSymbol where
  name : String
  declaringType : Option SymbolId
  signature : String
  declaration : Option Span
deriving DecidableEq

/-- A declared field, parameter or local variable. -/
structure VariableSymbol where
  name : String
  typeName : String
  declaringType : Option SymbolId
  declaration : Option Span
deriving DecidableEq

/-! ## Symbols -/

/-- What a name stands for. -/
inductive Symbol where
  | type (t : TypeSymbol)
  | method (m : MethodSymbol)
  | var (v : VariableSymbol)
deriving DecidableEq

namespace Symbol

/-- The type in whose body the symbol is declared; a type symbol records none. -/
def declaringType? : Symbol → Option SymbolId
  | type _ => none
  | method m => m.declaringType
  | var v => v.declaringType

/-- Where the symbol is declared, if it is declared in source. -/
def declaration? : Symbol → Option Span
  | type t => t.declaration
  | method m => m.declaration
  | var v => v.declaration

def asType? : Symbol → Option TypeSymbol
  | type t => some t
  | _ => none

def asMethod? : Symbol → Option MethodSymbol
  | method m => some m
  | _ => none

def asVariable? : Symbol → Option VariableSymbol
  | var v => some v
  | _ => none

end Symbol

end CodeNav
