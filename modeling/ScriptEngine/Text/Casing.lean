import ScriptEngine.Text.CaseTable

/-!
# Upper and lower case

Full case mappings of texts. A capital sigma becomes the final form at the end of a word: a cased
character stands before it and none after it, characters without influence on case left aside.
-/

namespace ScriptEngine.Text

def mapCase (runs : Array CaseRun) (expansions : Array (Nat × List Nat)) (c : Char) : List Char :=
  match expansions.find? (·.1 == c.toNat) with
  | some image => image.2.map Char.ofNat
  | none =>
    match runs.find? (·.covers c.toNat) with
    | some run => [Char.ofNat (run.apply c.toNat)]
    | none => [c]

def upperChar (c : Char) : List Char :=
  mapCase upperRuns upperExpansions c

def lowerChar (c : Char) : List Char :=
  mapCase lowerRuns lowerExpansions c

def startsCased (cs : List Char) : Bool :=
  match cs.dropWhile caseIgnorableChars.contains with
  | [] => false
  | c :: _ => casedChars.contains c

/-- The small sigma between two texts, the first of them given backwards. -/
def smallSigma (before after : List Char) : Char :=
  if startsCased before && !startsCased after then 'ς' else 'σ'

def lowerAfter (before : List Char) : List Char → List Char
  | [] => []
  | c :: cs =>
    (if c = 'Σ' then [smallSigma before cs] else lowerChar c) ++ lowerAfter (c :: before) cs

def toUpper (s : String) : String :=
  String.ofList (s.toList.flatMap upperChar)

def toLower (s : String) : String :=
  String.ofList (lowerAfter [] s.toList)

end ScriptEngine.Text
