import PipeSql.Proofs.Query.Expr.Completeness
import PipeSql.Proofs.Query.Scan
import PipeSql.Sql.Expr

/-! # The words and signs of SQL in the query language

Names, literals and operators that both languages spell alike. -/

namespace PipeSql.Sql

open Query Text

/-! ## Plain names -/

theorem toNat_of_isAlpha {c : Char} (h : c.isAlpha) :
    (65 ≤ c.toNat ∧ c.toNat ≤ 90) ∨ (97 ≤ c.toNat ∧ c.toNat ≤ 122) := by
  have hv : c.toNat = c.val.toNat := rfl
  delta Char.isAlpha Char.isUpper Char.isLower at h
  simp only [Bool.or_eq_true, Bool.and_eq_true, decide_eq_true_eq, ge_iff_le,
    UInt32.le_iff_toNat_le] at h
  have hA : 'A'.val.toNat = 65 := rfl
  have hZ : 'Z'.val.toNat = 90 := rfl
  have ha : 'a'.val.toNat = 97 := rfl
  have hz : 'z'.val.toNat = 122 := rfl
  omega

theorem startsName_of_isPlain {c : Char} (h : c.isAlpha || c == '_') :
    Text.isBlank c = false ∧ isQuote c = false ∧ c ≠ '[' ∧ c.isDigit = false ∧ startsName c := by
  rcases Bool.or_eq_true_iff.mp h with halpha | hunderscore
  · have hrange := toNat_of_isAlpha halpha
    refine ⟨?_, ?_, ?_, ?_, ?_⟩
    · simp [Text.isBlank]
      omega
    · rw [isQuote, Bool.or_eq_false_iff, beq_eq_false_iff_ne, beq_eq_false_iff_ne]
      constructor <;> rintro rfl <;> cases halpha
    · rintro rfl
      cases halpha
    · have hv : c.toNat = c.val.toNat := rfl
      have h9 : '9'.val.toNat = 57 := rfl
      delta Char.isDigit
      simp only [Bool.and_eq_false_iff, decide_eq_false_iff_not, ge_iff_le, UInt32.le_iff_toNat_le]
      omega
    · simp [startsName, isAlphabetic_of_isAlpha halpha]
  · obtain rfl : c = '_' := by simpa using hunderscore
    decide

theorem continuesName_of_isAlphanum {c : Char} (h : c.isAlphanum || c == '_') :
    continuesName c := by
  simp only [Bool.or_eq_true, Char.isAlphanum] at h
  rcases h with (halpha | hdigit) | hunderscore
  · simp [continuesName, isAlphanumeric_of_isAlphabetic (isAlphabetic_of_isAlpha halpha)]
  · have hv : c.toNat = c.val.toNat := rfl
    have hlow : c.toNat < 0x80 := by
      have h9 : '9'.val.toNat = 57 := rfl
      have hrange := hdigit
      simp only [Char.isDigit, Bool.and_eq_true, decide_eq_true_eq, ge_iff_le,
        UInt32.le_iff_toNat_le] at hrange
      omega
    simp [continuesName, isAlphanumeric, isNumeric, hlow, hdigit]
  · simp [continuesName, hunderscore]

theorem nameLength_of_isPlain {body : List Char} (h : ∀ c ∈ body, c.isAlphanum || c == '_') :
    nameLength body = body.length := by
  induction body with
  | nil => rfl
  | cons c body ih =>
    have hc := continuesName_of_isAlphanum (h c List.mem_cons_self)
    rw [nameLength, ih fun d hd => h d (List.mem_cons_of_mem c hd), hc]
    rfl

theorem scans_isPlain {name : String} (h : isPlain name) :
    Scans Ends name.toList [.ident name] := by
  unfold isPlain at h
  cases hname : name.toList with
  | nil => simp [hname] at h
  | cons c body =>
    simp only [hname, Bool.and_eq_true, List.all_eq_true] at h
    obtain ⟨hc, hbody⟩ := h
    obtain ⟨hblank, hquote, hbracket, hdigit, hstart⟩ := startsName_of_isPlain hc
    have hword := scans_word hblank hquote hbracket hdigit hstart (nameLength_of_isPlain hbody)
    rw [← hname, String.ofList_toList, hname] at hword
    exact hword

theorem ofPath_of_isPlain {name : String} (h : isPlain name) : Column.ofPath name = .bare name := by
  have hdot : ∀ c ∈ name.toList, (c != '.') = true := by
    unfold isPlain at h
    cases hname : name.toList with
    | nil => simp
    | cons c body =>
      simp only [hname, Bool.and_eq_true, List.all_eq_true] at h
      intro d hd
      rw [bne_iff_ne]
      rintro rfl
      rcases List.mem_cons.mp hd with rfl | hd
      · exact absurd h.1 (by decide)
      · exact absurd (h.2 _ hd) (by decide)
  have hnone : name.toList.reverse.dropWhile (· != '.') = [] := by
    rw [List.dropWhile_eq_nil_iff]
    intro c hc
    exact hdot c (List.mem_reverse.mp hc)
  simp only [Column.ofPath, hnone]

/-! ## Operators -/

section Symbols

variable {op : Operator} {c d : Char} {kind : Query.TokenKind}

/-- An operator between blanks. -/
abbrev spaced (op : Operator) : List Char :=
  ' ' :: ((symbol op).toList ++ [' '])

theorem scans_spaced_sign (hsymbol : (symbol op).toList = [c]) (hc : isSign c)
    (hsign : sign? c = some kind) (hpair : pairSign? c ' ' = none) :
    Scans Anything (spaced op) [kind] := by
  rw [spaced, hsymbol]
  refine scans_spaced ((scans_sign hc hsign).imp fun rest hrest d hd => ?_)
  obtain rfl : ' ' = d := by simpa [hrest] using hd
  exact hpair

theorem scans_spaced_pair (hsymbol : (symbol op).toList = [c, d]) (hc : isSign c)
    (hpair : pairSign? c d = some kind) : Scans Anything (spaced op) [kind] := by
  rw [spaced, hsymbol]
  exact scans_spaced ((scans_pair hc hpair).imp fun _ _ => trivial)

theorem scans_spaced_word {name : String} (hsymbol : symbol op = name) (hname : isPlain name) :
    Scans Anything (spaced op) [.ident name] := by
  rw [spaced, hsymbol]
  refine scans_spaced ((scans_isPlain hname).imp fun rest hrest c hc => ?_)
  obtain rfl : ' ' = c := by simpa [hrest] using hc
  rfl

end Symbols

/-- A comparison is written as one sign, which stands for it. -/
theorem scans_comparison {op : Comparison} (hlike : op ≠ .like) (hunlike : op ≠ .unlike) :
    ∃ kind, Scans Anything (spaced (.compare op)) [kind] ∧ comparison? kind = some op := by
  cases op with
  | equal =>
    exact ⟨.assign, scans_spaced_sign (c := '=') rfl (by decide) rfl rfl, rfl⟩
  | notEqual =>
    exact ⟨.notEqual, scans_spaced_pair (c := '<') (d := '>') rfl (by decide) rfl, rfl⟩
  | less =>
    exact ⟨.less, scans_spaced_sign (c := '<') rfl (by decide) rfl rfl, rfl⟩
  | greater =>
    exact ⟨.greater, scans_spaced_sign (c := '>') rfl (by decide) rfl rfl, rfl⟩
  | lessEqual =>
    exact ⟨.lessEqual, scans_spaced_pair (c := '<') (d := '=') rfl (by decide) rfl, rfl⟩
  | greaterEqual =>
    exact ⟨.greaterEqual, scans_spaced_pair (c := '>') (d := '=') rfl (by decide) rfl, rfl⟩
  | like => exact absurd rfl hlike
  | unlike => exact absurd rfl hunlike

/-- The chain that an operator belongs to. -/
def chainOf? : Operator → Option Chain
  | .connect .or => some .disjunction
  | .connect .and => some .conjunction
  | .compute .add | .compute .subtract => some .sum
  | .compute .multiply | .compute .divide | .compute .modulo => some .product
  | .compare _ => none

theorem scans_chain {op : Operator} {chain : Chain} (h : chainOf? op = some chain) :
    ∃ kind, Scans Anything (spaced op) [kind] ∧ chain.operatorOf? kind = some op := by
  rcases op with _ | ⟨_ | _⟩ | ⟨_ | _ | _ | _ | _⟩ <;> cases h
  · have hand : agree "AND" "and" := agree_iff.mpr (by decide)
    exact ⟨.ident "AND", scans_spaced_word rfl (by decide), if_pos hand⟩
  · have hor : agree "OR" "or" := agree_iff.mpr (by decide)
    exact ⟨.ident "OR", scans_spaced_word rfl (by decide), if_pos hor⟩
  · exact ⟨.plus, scans_spaced_sign (c := '+') rfl (by decide) rfl rfl, rfl⟩
  · exact ⟨.minus, scans_spaced_sign (c := '-') rfl (by decide) rfl rfl, rfl⟩
  · exact ⟨.star, scans_spaced_sign (c := '*') rfl (by decide) rfl rfl, rfl⟩
  · exact ⟨.slash, scans_spaced_sign (c := '/') rfl (by decide) rfl rfl, rfl⟩
  · exact ⟨.percent, scans_spaced_sign (c := '%') rfl (by decide) rfl rfl, rfl⟩

end PipeSql.Sql
