/-
The kinds of syntax nodes that the analysis tells apart, and the kind of a
node of the grammar.
-/

namespace CommandTrace

inductive Kind where
  | compilationUnit
  | namespaceDecl
  | usingDirective
  | typeDecl
  | baseList
  | fieldDecl
  | methodDecl
  | parameter
  | block
  | variableDecl
  | declarator
  | invocation
  | memberAccess
  | objectCreation
  | initializer
  | assignment
  | argumentList
  | argument
  | literal
  | identifier
  | thisExpr
  | implicitType
  | other
deriving DecidableEq, Repr

namespace Kind

def all : List Kind :=
  [compilationUnit, namespaceDecl, usingDirective, typeDecl, baseList, fieldDecl, methodDecl, parameter,
    block, variableDecl, declarator, invocation, memberAccess, objectCreation, initializer, assignment,
    argumentList, argument, literal, identifier, thisExpr, implicitType, other]

def name : Kind → String
  | compilationUnit => "compilation_unit"
  | namespaceDecl => "namespace"
  | usingDirective => "using"
  | typeDecl => "type_declaration"
  | baseList => "base_list"
  | fieldDecl => "field"
  | methodDecl => "method"
  | parameter => "parameter"
  | block => "block"
  | variableDecl => "variable_declaration"
  | declarator => "declarator"
  | invocation => "invocation"
  | memberAccess => "member_access"
  | objectCreation => "object_creation"
  | initializer => "initializer"
  | assignment => "assignment"
  | argumentList => "argument_list"
  | argument => "argument"
  | literal => "literal"
  | identifier => "identifier"
  | thisExpr => "this"
  | implicitType => "implicit_type"
  | other => "other"

def ofName? (name : String) : Option Kind :=
  all.find? fun kind => kind.name == name

/-- The kind of a named node of the grammar. -/
def ofType : String → Kind
  | "compilation_unit" => compilationUnit
  | "namespace_declaration" | "file_scoped_namespace_declaration" => namespaceDecl
  | "using_directive" => usingDirective
  | "class_declaration" | "struct_declaration" | "interface_declaration" | "record_declaration"
  | "record_struct_declaration" => typeDecl
  | "base_list" => baseList
  | "field_declaration" => fieldDecl
  | "method_declaration" => methodDecl
  | "parameter" => parameter
  | "block" => block
  | "variable_declaration" => variableDecl
  | "variable_declarator" => declarator
  | "invocation_expression" => invocation
  | "member_access_expression" => memberAccess
  | "object_creation_expression" => objectCreation
  | "initializer_expression" => initializer
  | "assignment_expression" => assignment
  | "argument_list" => argumentList
  | "argument" => argument
  | "literal" | "string_literal" | "verbatim_string_literal" | "raw_string_literal"
  | "character_literal" | "integer_literal" | "real_literal" | "boolean_literal"
  | "null_literal" => literal
  | "identifier" => identifier
  | "this_expression" | "this" => thisExpr
  | "implicit_type" => implicitType
  | _ => other

/-- Anonymous tokens share their type names with named nodes, and are of no
kind of their own. -/
def ofGrammar (type : String) (named : Bool) : Kind :=
  if named then ofType type else other

end Kind

end CommandTrace
