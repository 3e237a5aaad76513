import MetadataAgent.Json.Generator

/-! # Compact text

The bytes of a token, and the text of a value without white space, which is what `ToString` returns
if the generator rejects no call. `formatDouble` is what it prints for a floating number. -/
namespace MetadataAgent.Json
open Lib
set_option autoImplicit false

def hexDigit (n : UInt8) : UInt8 := if n < 10 then 0x30 + n else 0x37 + n

/-- `yajl_string_encode` for one byte. -/
def escapeByte (b : UInt8) : Bytes :=
  if b = 0x0d then lit "\\r"
  else if b = 0x0a then lit "\\n"
  else if b = 0x5c then lit "\\\\"
  else if b = 0x22 then lit "\\\""
  else if b = 0x0c then lit "\\f"
  else if b = 0x08 then lit "\\b"
  else if b = 0x09 then lit "\\t"
  else if b < 0x20 then lit "\\u00" ++ [hexDigit (b >>> 4), hexDigit (b &&& 0xf)]
  else [b]

def quote (s : Bytes) : Bytes := 0x22 :: (s.flatMap escapeByte ++ [0x22])

section Text
variable (formatDouble : LongDouble → Bytes) (toDouble : LongDouble → LongDouble)

def Token.text : Token → Bytes
  | .leftBrace => [0x7b]
  | .rightBrace => [0x7d]
  | .leftBracket => [0x5b]
  | .rightBracket => [0x5d]
  | .comma => [0x2c]
  | .colon => [0x3a]
  | .null => lit "null"
  | .boolean b => if b then lit "true" else lit "false"
  | .integer n => decimal n
  | .double d => formatDouble d
  | .string s => quote s

def textOf (tokens : List Token) : Bytes := tokens.flatMap (Token.text formatDouble)

def compactText (v : Value) : Bytes := textOf formatDouble (v.doc toDouble).tokens

theorem compactText_array (es : List Value) :
    compactText formatDouble toDouble (.array es) =
      0x5b :: ([0x2c].intercalate (es.map (compactText formatDouble toDouble)) ++ [0x5d]) := by
  have hbody : ([Token.comma].intercalate (es.map fun e => (e.doc toDouble).tokens)).flatMap
      (Token.text formatDouble) =
        [0x2c].intercalate (es.map (compactText formatDouble toDouble)) := by
    rw [flatMap_intercalate (Token.text formatDouble) rfl, List.map_map]
    rfl
  rw [compactText, Value.doc, Doc.tokens, elementDocs_eq, elementTokens_eq, List.map_map, textOf,
    List.flatMap_cons, List.flatMap_append]
  exact congrArg (fun body => 0x5b :: (body ++ [0x5d])) hbody

theorem compactText_object (fs : Object) :
    compactText formatDouble toDouble (.object fs) =
      0x7b :: ([0x2c].intercalate
        (fs.map fun f => quote f.1 ++ 0x3a :: compactText formatDouble toDouble f.2) ++
          [0x7d]) := by
  have hbody : ([Token.comma].intercalate
      (fs.map fun f => .string f.1 :: .colon :: (f.2.doc toDouble).tokens)).flatMap
        (Token.text formatDouble) = [0x2c].intercalate
          (fs.map fun f => quote f.1 ++ 0x3a :: compactText formatDouble toDouble f.2) := by
    rw [flatMap_intercalate (Token.text formatDouble) rfl, List.map_map]
    rfl
  rw [compactText, Value.doc, Doc.tokens, fieldDocs_eq, fieldTokens_eq, List.map_map, textOf,
    List.flatMap_cons, List.flatMap_append]
  exact congrArg (fun body => 0x7b :: (body ++ [0x7d])) hbody

end Text

end MetadataAgent.Json
