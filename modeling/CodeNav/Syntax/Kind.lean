/-!
# Kinds of syntax nodes

The closed set of node kinds that the index tells apart. Each has one name, in lower case with
underscores, under which it appears in facts, messages and inputs.
-/

namespace CodeNav

inductive Kind where
  | compilationUnit
  | packageDecl
  | importDecl
  | typeDecl
  | fieldDecl
  | methodDecl
  | simpleVarDecl
  | variableDeclFragment
  | variableDeclStatement
  | block
  | expressionStatement
  | returnStatement
  | methodInvocation
  | fieldAccess
  | qualifiedName
  | simpleName
  | simpleType
  | primitiveType
  | literal
deriving DecidableEq

namespace Kind

def all : List Kind :=
  [compilationUnit, packageDecl, importDecl, typeDecl, fieldDecl, methodDecl, simpleVarDecl,
    variableDeclFragment, variableDeclStatement, block, expressionStatement, returnStatement,
    methodInvocation, fieldAccess, qualifiedName, simpleName, simpleType, primitiveType, literal]

def name : Kind → String
  | compilationUnit => "compilation_unit"
  | packageDecl => "package_decl"
  | importDecl => "import_decl"
  | typeDecl => "type_decl"
  | fieldDecl => "field_decl"
  | methodDecl => "method_decl"
  | simpleVarDecl => "simple_var_decl"
  | variableDeclFragment => "variable_decl_fragment"
  | variableDeclStatement => "variable_decl_statement"
  | block => "block"
  | expressionStatement => "expression_statement"
  | returnStatement => "return_statement"
  | methodInvocation => "method_invocation"
  | fieldAccess => "field_access"
  | qualifiedName => "qualified_name"
  | simpleName => "simple_name"
  | simpleType => "simple_type"
  | primitiveType => "primitive_type"
  | literal => "literal"

instance : ToString Kind := ⟨name⟩

def ofName? (s : String) : Option Kind := all.find? (·.name = s)

/-- The name of a kind as a constructor, in camel case, for display of a node's structure. -/
def constructorName : Kind → String
  | compilationUnit => "CompilationUnit"
  | packageDecl => "PackageDecl"
  | importDecl => "ImportDecl"
  | typeDecl => "TypeDecl"
  | fieldDecl => "FieldDecl"
  | methodDecl => "MethodDecl"
  | simpleVarDecl => "SimpleVarDecl"
  | variableDeclFragment => "VariableDeclFragment"
  | variableDeclStatement => "VariableDeclStatement"
  | block => "Block"
  | expressionStatement => "ExpressionStatement"
  | returnStatement => "ReturnStatement"
  | methodInvocation => "MethodInvocation"
  | fieldAccess => "FieldAccess"
  | qualifiedName => "QualifiedName"
  | simpleName => "SimpleName"
  | simpleType => "SimpleType"
  | primitiveType => "PrimitiveType"
  | literal => "Literal"

/-- Simple and qualified names: the nodes that identify something. -/
def isName : Kind → Bool
  | simpleName | qualifiedName => true
  | _ => false

theorem isName_iff {k : Kind} : k.isName = true ↔ k = simpleName ∨ k = qualifiedName := by
  cases k <;> decide

theorem ofName?_name (k : Kind) : ofName? k.name = some k := by cases k <;> decide +kernel

end Kind

end CodeNav
