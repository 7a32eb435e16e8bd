/-!
# Splitting and joining text at a separator

`splitAt` cuts at every separator and so always gives at least one piece, empty
pieces included; `cutAt` cuts at the first one only.
-/
namespace CertEnrollment.Text

/-- The pieces between the separators, at least one. -/
def splitAt (sep : Char) : List Char → List (List Char)
  | [] => [[]]
  | c :: cs =>
    if c = sep then [] :: splitAt sep cs
    else match splitAt sep cs with
      | [] => [[c]]
      | piece :: more => (c :: piece) :: more

/-- The text before the first separator and, if there is one, the text after it. -/
def cutAt (sep : Char) : List Char → List Char × Option (List Char)
  | [] => ([], none)
  | c :: cs =>
    if c = sep then ([], some cs)
    else ((c :: (cutAt sep cs).1), (cutAt sep cs).2)

/-- What stands before `ending`, when the text ends so. -/
def beforeEnding? (ending text : List Char) : Option (List Char) :=
  if ending.isSuffixOf text then some (text.take (text.length - ending.length)) else none

/-- What stands after `start`, when the text starts so. -/
def afterStart? : (start text : List Char) → Option (List Char)
  | [], text => some text
  | _ :: _, [] => none
  | c :: start, d :: text => if c = d then afterStart? start text else none

/-- The first place of `word` in the text: what stands before it and after it. -/
def cutAtWord (word : List Char) : List Char → Option (List Char × List Char)
  | [] => if word = [] then some ([], []) else none
  | c :: cs => match afterStart? word (c :: cs) with
    | some rest => some ([], rest)
    | none => (cutAtWord word cs).map fun (before, after) => (c :: before, after)

/-- The pieces one after another with `sep` between them. -/
def join (sep : String) (pieces : List String) : String :=
  String.ofList (sep.toList.intercalate (pieces.map String.toList))

end CertEnrollment.Text
