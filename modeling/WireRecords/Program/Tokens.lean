import WireRecords.Program.Syntax
import WireRecords.Program.Token
import WireRecords.Text.Quoted

/-!
# The tokens of procedures
-/
namespace WireRecords.Program

open Token (ident operator parens brackets braces commaSeparated commaEnded)

def Literal.text : Literal → String
  | integer value => toString value
  | zeroByte => "0u8"
  | string value => Text.quoteLiteral value
  | bytes value => Text.quoteBytes value

mutual

def Ty.tokens : Ty → List Token
  | .path segments [] => Token.path segments
  | .path segments arguments =>
    Token.path segments ++ operator "<" ++ commaSeparated (tokensOfTypes arguments) ++ operator ">"
  | .array element length =>
    [brackets (element.tokens ++ operator ";" ++ [.literal (toString length)])]
  | .slice element => [brackets element.tokens]
  | .reference isMutable target =>
    operator "&" ++ (if isMutable then [ident "mut"] else []) ++ target.tokens
  | .bounded bound => [ident "impl", ident bound]
  | .unit => [parens []]

def tokensOfTypes : List Ty → List (List Token)
  | [] => []
  | t :: ts => t.tokens :: tokensOfTypes ts

end

def Attribute.tokens : Attribute → List Token
  | doc text => operator "#" ++
    [brackets ([ident "doc"] ++ operator "=" ++ [.literal (Text.quoteLiteral text)])]
  | docComment text => operator "#" ++
    [brackets ([ident "doc"] ++ operator "=" ++ [.literal ("r\"" ++ text ++ "\"")])]
  | list name arguments => operator "#" ++
    [brackets [ident name, parens (commaSeparated (arguments.map fun a => [ident a]))]]

def Parameter.tokens : Parameter → List Token
  | receiver true => operator "&" ++ [ident "mut", ident "self"]
  | receiver false => operator "&" ++ [ident "self"]
  | typed name type => [ident name] ++ operator ":" ++ type.tokens

def resultTokens : Option Ty → List Token
  | none => []
  | some type => operator "->" ++ type.tokens

def Signature.tokens (s : Signature) : List Token :=
  s.attributes.flatMap Attribute.tokens ++ (if s.isPublic then [ident "pub"] else []) ++
    [ident "fn", ident s.name] ++
    (match s.generic with
      | none => []
      | some (name, bound) =>
        operator "<" ++ [ident name] ++ operator ":" ++ [ident bound] ++ operator ">") ++
    [parens (commaSeparated (s.parameters.map Parameter.tokens))] ++ resultTokens s.result

mutual

def Expr.tokens : Expr → List Token
  | .path segments => Token.path segments
  | .literal value => [.literal value.text]
  | .unit => [parens []]
  | .paren inner => [parens inner.tokens]
  | .deref inner => operator "*" ++ inner.tokens
  | .borrow isMutable inner =>
    operator "&" ++ (if isMutable then [ident "mut"] else []) ++ inner.tokens
  | .propagate inner => inner.tokens ++ operator "?"
  | .cast inner type => inner.tokens ++ [ident "as"] ++ type.tokens
  | .binary symbol lhs rhs => lhs.tokens ++ operator symbol ++ rhs.tokens
  | .assign place value => place.tokens ++ operator "=" ++ value.tokens
  | .call callee arguments =>
    callee.tokens ++ [parens (commaSeparated (tokensOfExprs arguments))]
  | .method receiver name arguments =>
    receiver.tokens ++ operator "." ++
      [ident name, parens (commaSeparated (tokensOfExprs arguments))]
  | .field base name => base.tokens ++ operator "." ++ [ident name]
  | .index base position => base.tokens ++ [brackets position.tokens]
  | .range none stop => operator ".." ++ stop.tokens
  | .range (some start) stop => start.tokens ++ operator ".." ++ stop.tokens
  | .repetition value length => [brackets (value.tokens ++ operator ";" ++ length.tokens)]
  | .vector value length =>
    [ident "vec"] ++ operator "!" ++ [brackets (value.tokens ++ operator ";" ++ length.tokens)]
  | .construct path fields => Token.path path ++ [braces (commaEnded (tokensOfFields fields))]
  | .returned value => [ident "return"] ++ value.tokens
  | .closure result body =>
    operator "|" ++ operator "|" ++ resultTokens result ++ [braces (tokensOfStmts body)]
  | .block none _ body => [braces (tokensOfStmts body)]
  | .block (some label) _ body =>
    [.punct '\'' true, ident label] ++ operator ":" ++ [braces (tokensOfStmts body)]
  | .branch condition body none =>
    [ident "if"] ++ condition.tokens ++ [braces (tokensOfStmts body)]
  | .branch condition body (some otherwise) =>
    [ident "if"] ++ condition.tokens ++
      [braces (tokensOfStmts body), ident "else", braces (tokensOfStmts otherwise)]
  | .forEach name source body =>
    [ident "for", ident name, ident "in"] ++ source.tokens ++ [braces (tokensOfStmts body)]
  | .whileLoop condition body =>
    [ident "while"] ++ condition.tokens ++ [braces (tokensOfStmts body)]
  | .endless body => [ident "loop", braces (tokensOfStmts body)]
  | .unchecked body => [ident "unsafe", braces (tokensOfStmts body)]

def tokensOfExprs : List Expr → List (List Token)
  | [] => []
  | e :: es => e.tokens :: tokensOfExprs es

def tokensOfFields : List (String × Expr) → List (List Token)
  | [] => []
  | (name, value) :: fields =>
    ([ident name] ++ operator ":" ++ value.tokens) :: tokensOfFields fields

def Stmt.tokens : Stmt → List Token
  | .expr value hasSemicolon => value.tokens ++ (if hasSemicolon then operator ";" else [])
  | .binding isMutable name type value =>
    [ident "let"] ++ (if isMutable then [ident "mut"] else []) ++ [ident name] ++
      (match type with
        | none => []
        | some t => operator ":" ++ t.tokens) ++
      operator "=" ++ value.tokens ++ operator ";"
  | .invocation name hasSemicolon =>
    [ident name] ++ operator "!" ++ [parens []] ++ (if hasSemicolon then operator ";" else [])
  | .item item => item.tokens

def tokensOfStmts : Block → List Token
  | [] => []
  | s :: ss => s.tokens ++ tokensOfStmts ss

def Item.tokens : Item → List Token
  | .imports attributes path names =>
    attributes.flatMap Attribute.tokens ++ [ident "use", ident path] ++ operator "::" ++
      [braces (commaSeparated (names.map fun n => [ident n]))] ++ operator ";"
  | .constant attributes name =>
    attributes.flatMap Attribute.tokens ++ [ident "const", ident name] ++ operator ":" ++
      [parens []] ++ operator "=" ++ [parens []] ++ operator ";"
  | .struct attributes name fields =>
    attributes.flatMap Attribute.tokens ++ [ident "pub", ident "struct", ident name,
      braces (commaEnded (fields.map fun (name, type) =>
        [ident "pub", ident name] ++ operator ":" ++ type.tokens))]
  | .function signature body => signature.tokens ++ [braces (tokensOfStmts body)]
  | .methods none target functions =>
    [ident "impl"] ++ target.tokens ++ [braces (tokensOfFunctions functions)]
  | .methods (some trait) target functions =>
    [ident "impl", ident trait, ident "for"] ++ target.tokens ++
      [braces (tokensOfFunctions functions)]
  | .trait name functions => [ident "trait", ident name, braces (tokensOfFunctions functions)]
  | .module name items => [ident "mod", ident name, braces (tokensOfItems items)]

def tokensOfFunctions : List (Signature × Block) → List Token
  | [] => []
  | (signature, body) :: fs =>
    signature.tokens ++ [braces (tokensOfStmts body)] ++ tokensOfFunctions fs

def tokensOfItems : List Item → List Token
  | [] => []
  | i :: is => i.tokens ++ tokensOfItems is

end

end WireRecords.Program
