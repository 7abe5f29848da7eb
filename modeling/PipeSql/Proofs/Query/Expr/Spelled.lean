import PipeSql.Proofs.Query.Expr.Grammar
import PipeSql.Proofs.Query.Scan

/-! # Spelled expressions

Expressions whose numbers and functions are spelled as the scanner finds them. Such are all
expressions that are read from a text. -/

namespace PipeSql.Query

open PipeSql.Text

/-- Numbers are numbers of the scanner with at most one sign in front, and functions are names. -/
inductive Expr.Spelled : Expr → Prop where
  | column (c) : Spelled (.column c)
  | text (value) : Spelled (.text value)
  | number {digits} : Spells (.number digits) digits → Spelled (.number digits)
  | negative {digits} : Spells (.number digits) digits → Spelled (.number ("-" ++ digits))
  | bool (value) : Spelled (.bool value)
  | binary (op) {left right} : Spelled left → Spelled right → Spelled (.binary op left right)
  | call {function arguments} : Spells (.ident function) function →
      (∀ e ∈ arguments, Spelled e) → Spelled (.call function arguments)
  | aggregate {function arguments} : Spells (.ident function) function →
      (∀ e ∈ arguments, Spelled e) → Spelled (.aggregate function arguments)

/-- A name or a number is spelled by its own text. -/
def TokenKind.Spelled (kind : TokenKind) : Prop :=
  (∀ name, kind = .ident name → Spells kind name) ∧
    ∀ digits, kind = .number digits → Spells kind digits

/-! ## Tokens -/

theorem nameLength_take (cs : List Char) :
    nameLength (cs.take (nameLength cs)) = (cs.take (nameLength cs)).length := by
  induction cs with
  | nil => rfl
  | cons c cs ih =>
    rw [nameLength]
    split
    · rename_i hc
      rw [List.take_succ_cons, nameLength, ih, if_pos ?_, List.length_cons]
      -- the character behind a dot belongs to the name
      simp only [Bool.or_eq_true, Bool.and_eq_true] at hc ⊢
      rcases hc with hc | ⟨hdot, hhead⟩
      · exact .inl hc
      refine .inr ⟨hdot, ?_⟩
      cases cs with
      | nil => cases hhead
      | cons d cs =>
        have hd : startsName d := by simpa using hhead
        rw [nameLength, if_pos (by simp [continuesName_of_startsName hd])]
        simpa using hd
    · rfl

/-- The digit behind a point belongs to the number. -/
theorem startsNumber_takeWhile {c : Char} {rest : List Char}
    (h : c.isDigit || (c == '.' && rest.head?.any Char.isDigit)) :
    c.isDigit || (c == '.' && (rest.takeWhile continuesNumber).head?.any Char.isDigit) := by
  simp only [Bool.or_eq_true, Bool.and_eq_true] at h ⊢
  refine h.imp_right fun ⟨hdot, hhead⟩ => ⟨hdot, ?_⟩
  cases rest with
  | nil => cases hhead
  | cons d rest =>
    have hd : d.isDigit := by simpa using hhead
    have hcontinues : continuesNumber d := by simp [continuesNumber, Char.isAlphanum, hd]
    simpa [List.takeWhile_cons, hcontinues] using hd

theorem spelled_of_lexeme {start : Nat} {c : Char} {rest : List Char} {kind : TokenKind} {n : Nat}
    (hblank : isBlank c = false) (h : lexeme start c rest = .ok (kind, n)) : kind.Spelled := by
  rcases lexeme_cases h with ⟨_, rfl⟩ | ⟨_, rfl⟩ | ⟨hdigit, hnumeral, rfl⟩ |
    ⟨hquote, hbracket, hdigit, hname, rfl⟩ | ⟨hname, hnumber⟩
  · exact ⟨nofun, nofun⟩
  · exact ⟨nofun, nofun⟩
  · refine ⟨nofun, fun digits hkind => ?_⟩
    cases hkind
    refine Scans.spells ?_
    rw [String.toList_ofList]
    exact scans_numeral hblank (startsNumber_takeWhile hdigit) hnumeral fun d hd =>
      List.mem_takeWhile_imp hd
  · refine ⟨fun name hkind => ?_, nofun⟩
    cases hkind
    refine Scans.spells ?_
    rw [String.toList_ofList]
    exact scans_word hblank hquote hbracket hdigit hname (nameLength_take rest)
  · exact ⟨fun name h => absurd h (hname name), fun digits h => absurd h (hnumber digits)⟩

theorem spelled_of_tokensFrom {start : Nat} {cs : List Char} {ts : List Token}
    (h : tokensFrom start cs = .ok ts) : ∀ token ∈ ts, token.kind.Spelled := by
  induction start, cs using scan_induction generalizing ts with
  | nil start =>
    rw [tokensFrom_nil] at h
    cases h
    simp
  | blank start c rest hc ih =>
    rw [tokensFrom_blank hc] at h
    exact ih h
  | stuck start c rest e hc hstuck =>
    rw [tokensFrom_stuck hc hstuck] at h
    cases h
  | lexeme start c rest kind n hc hlexeme ih =>
    rw [tokensFrom_lexeme hc hlexeme] at h
    obtain ⟨more, hmore, rfl⟩ := map_eq_ok_iff.mp h
    exact List.forall_mem_cons.mpr ⟨spelled_of_lexeme hc hlexeme, ih hmore⟩

theorem spelled_of_tokens {source : List Char} {ts : List Token} (h : tokens source = .ok ts) :
    ∀ token ∈ ts, token.kind.Spelled :=
  spelled_of_tokensFrom h

/-! ## Derived expressions -/

theorem spells_one : Spells (.number "1") "1" := by
  have hscan : Scans Ends ['1'] [.number (String.ofList ['1'])] :=
    scans_numeral (by decide) (by decide) (by decide) (by simp)
  exact Scans.spells hscan

/-- What spelled tokens spell is spelled. -/
theorem Derives.spelled {level : Level} {ks : List TokenKind} {e : Expr} (h : Derives level ks e)
    (hks : ∀ kind ∈ ks, kind.Spelled) : e.Spelled := by
  induction h using Derives.rec
    (motive_2 := fun ks es _ => (∀ kind ∈ ks, kind.Spelled) → ∀ e ∈ es, e.Spelled) with
  | operand chain _ ih => exact ih hks
  | link _ _ _ hleft hright =>
    exact .binary _ (hleft fun k hk => hks k (List.mem_append_left _ hk))
      (hright fun k hk => hks k (List.mem_append_right _ (List.mem_cons_of_mem _ hk)))
  | sum _ ih => exact ih hks
  | relate _ _ _ hleft hright =>
    exact .binary _ (hleft fun k hk => hks k (List.mem_append_left _ hk))
      (hright fun k hk => hks k (List.mem_append_right _ (List.mem_cons_of_mem _ hk)))
  | like _ _ _ ih => exact .binary _ (ih fun k hk => hks k (List.mem_append_left _ hk)) (.text _)
  | unlike _ _ _ ih => exact .binary _ (ih fun k hk => hks k (List.mem_append_left _ hk)) (.text _)
  | primary _ ih => exact ih hks
  | negative _ hhead ih =>
    cases ih fun k hk => hks k (List.mem_cons_of_mem _ hk) with
    | number hdigits => exact .negative hdigits
    | negative => simp at hhead
  | @positive ks digits _ ih =>
    generalize htext : "-" ++ digits = text at ih
    cases ih fun k hk => hks k (List.mem_cons_of_mem _ hk) with
    | number hdigits => exact absurd (by simp [← htext]) (hdigits.unsigned digits.toList)
    | negative hdigits =>
      obtain rfl := String.append_right_inj "-" |>.mp htext
      exact .number hdigits
  | opposite _ _ ih =>
    exact .binary _ (.negative spells_one) (ih fun k hk => hks k (List.mem_cons_of_mem _ hk))
  | number digits => exact .number ((hks _ List.mem_cons_self).2 digits rfl)
  | text value => exact .text value
  | quoted name => exact .column _
  | yes => exact .bool true
  | no => exact .bool false
  | column => exact .column _
  | parens _ ih =>
    exact ih fun k hk => hks k (List.mem_cons_of_mem _ (List.mem_append_left _ hk))
  | call name => exact .call ((hks _ List.mem_cons_self).1 name rfl) (by simp)
  | callWith name _ ih =>
    refine .call ((hks _ List.mem_cons_self).1 name rfl) (ih fun k hk => hks k ?_)
    exact List.mem_cons_of_mem _ (List.mem_cons_of_mem _ (List.mem_append_left _ hk))
  | one _ ih hks a ha =>
    obtain rfl := List.mem_singleton.mp ha
    exact ih hks
  | more _ _ ih hrest hks a ha =>
    rcases List.mem_cons.mp ha with rfl | ha
    · exact ih fun k hk => hks k (List.mem_append_left _ hk)
    · exact hrest (fun k hk => hks k (List.mem_append_right _ (List.mem_cons_of_mem _ hk))) a ha

end PipeSql.Query
