/-!
Quoting by doubling: a quote inside the quoted text is written twice. Main statement: reading
gives back what was written, and stops behind the closing quote.
-/

namespace PipeSql.Text

/-- A text with each quote in it written twice. -/
def doubled (quote : Char) : List Char → List Char
  | [] => []
  | c :: rest => if c = quote then c :: c :: doubled quote rest else c :: doubled quote rest

/-- A text between quotes. -/
def enclosed (quote : Char) (s : String) : String :=
  String.ofList (quote :: (doubled quote s.toList ++ [quote]))

/-- Reads a quoted text behind its opening quote: the text, and what stands behind the closing
quote. -/
def undoubled? (quote : Char) : List Char → Option (List Char × List Char)
  | [] => none
  | c :: rest =>
    if c ≠ quote then (undoubled? quote rest).map fun (text, behind) => (c :: text, behind)
    else
      match rest with
      | [] => some ([], [])
      | d :: more =>
        if d = quote then
          (undoubled? quote more).map fun (text, behind) => (quote :: text, behind)
        else some ([], d :: more)

theorem undoubled?_doubled (quote : Char) (s rest : List Char) (h : rest.head? ≠ some quote) :
    undoubled? quote (doubled quote s ++ quote :: rest) = some (s, rest) := by
  induction s with
  | nil =>
    cases rest with
    | nil => simp [doubled, undoubled?]
    | cons d more =>
      have hd : d ≠ quote := by simpa using h
      simp [doubled, undoubled?, hd]
  | cons c s ih =>
    by_cases hc : c = quote
    · subst hc
      simp [doubled, undoubled?, ih]
    · simp only [doubled, hc, if_false, List.cons_append]
      rw [undoubled?.eq_def]
      simp [hc, ih]

end PipeSql.Text
