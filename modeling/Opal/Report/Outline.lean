/-!
# Outlines

A neutral form of structured data, and its two written forms: on one line, and spread over lines with
one part to a line.
-/

namespace Opal

mutual

/-- A neutral form of structured data. -/
inductive Outline where
  | atom (text : String)
  | list (items : List Outline)
  /-- A named group of parts without names. -/
  | tuple (name : String) (items : List Outline)
  /-- A named group of parts with names. -/
  | record (name : String) (fields : List OutlineField)

/-- A part with a name. -/
structure OutlineField where
  name : String
  value : Outline

end

namespace Outline

mutual

/-- An outline on one line. -/
def inline : Outline → String
  | atom text => text
  | list items => "[" ++ ", ".intercalate (inlineAll items) ++ "]"
  | tuple name items => name ++ "(" ++ ", ".intercalate (inlineAll items) ++ ")"
  | record name fields => name ++ " \x7b " ++ ", ".intercalate (inlineFields fields) ++ " \x7d"

def inlineAll : List Outline → List String
  | [] => []
  | o :: os => o.inline :: inlineAll os

def inlineField : OutlineField → String
  | ⟨name,value⟩ => name ++ ": " ++ value.inline

def inlineFields : List OutlineField → List String
  | [] => []
  | f :: fs => inlineField f :: inlineFields fs

end

/-- The space in front of a line at a depth: four columns for each level. -/
def margin (depth : Nat) : String :=
  String.ofList (List.replicate (4 * depth) ' ')

mutual

/-- Appends an outline at a depth to a text, with one part to a line. Its first line has no space in
front. -/
def spreadOnto (depth : Nat) (out : String) : Outline → String
  | atom text => out ++ text
  | list [] => out ++ "[]"
  | list items => spreadAllOnto (depth + 1) (out ++ "[\n") items ++ margin depth ++ "]"
  | tuple name items =>
    spreadAllOnto (depth + 1) (out ++ name ++ "(\n") items ++ margin depth ++ ")"
  | record name fields =>
    spreadFieldsOnto (depth + 1) (out ++ name ++ " \x7b\n") fields ++ margin depth ++ "\x7d"

/-- Appends the outlines of a list at a depth, each on lines of its own with a comma at the end. -/
def spreadAllOnto (depth : Nat) (out : String) : List Outline → String
  | [] => out
  | o :: os => spreadAllOnto depth (o.spreadOnto depth (out ++ margin depth) ++ ",\n") os

def spreadFieldOnto (depth : Nat) (out : String) : OutlineField → String
  | ⟨name,value⟩ => value.spreadOnto depth (out ++ margin depth ++ name ++ ": ") ++ ",\n"

def spreadFieldsOnto (depth : Nat) (out : String) : List OutlineField → String
  | [] => out
  | f :: fs => spreadFieldsOnto depth (spreadFieldOnto depth out f) fs

end

/-- An outline with one part to a line. -/
def spread (o : Outline) : String :=
  o.spreadOnto 0 ""

end Outline

end Opal
