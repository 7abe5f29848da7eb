import PipeSql.Proofs.Query.Commas
import PipeSql.Proofs.Query.Pieces
import PipeSql.Proofs.Query.Stage.Parsed

/-! # The assignments of `extend`

Which tokens spell a list of assignments, told without a parser. Main statement: the stage reads
just these, so that the assignments of two stages may stand in one, with a comma between them. -/

namespace PipeSql.Query

open PipeSql.Text

variable {arguments : List Char} {ts item : List Token} {items : List (List Token)}
  {ks ks' : List TokenKind} {assignment : Assignment} {xs ys : List Assignment}

/-! ## One assignment -/

/-- The name that a token of a kind spells. -/
def TokenKind.name? : TokenKind → Option String
  | .ident name | .quotedIdent name => some name
  | _ => none

theorem Token.name?_eq (token : Token) : token.name? = token.kind.name? := by
  obtain ⟨kind, start, stop⟩ := token
  cases kind <;> rfl

/-- The kinds of tokens that spell an assignment. -/
inductive Assigns : List TokenKind → Assignment → Prop where
  | mk {kind name ks value} :
    TokenKind.name? kind = some name → Derives (.chain .disjunction) ks value →
      Assigns (kind :: .assign :: ks) ⟨name, value⟩

theorem Derives.ne_nil {level : Level} {e : Expr} (h : Derives level ks e) : ks ≠ [] := by
  induction h using Derives.rec (motive_2 := fun ks _ _ => ks ≠ []) with
  | operand _ _ ih => exact ih
  | sum _ ih => exact ih
  | primary _ ih => exact ih
  | one _ ih => exact ih
  | _ => simp

/-- Only tokens of such kinds are read as the assignment. -/
theorem parseAssignment_eq_ok_iff :
    parseAssignment arguments item = .ok assignment ↔ Assigns (item.map Token.kind) assignment := by
  constructor
  · intro h
    unfold parseAssignment at h
    split at h
    · rename_i name value hitem
      obtain ⟨e, he, rfl⟩ := map_eq_ok_iff.mp h
      unfold assignment? at hitem
      split at hitem
      · rename_i first sign rest
        split at hitem
        · rename_i hsign
          obtain ⟨name', hname, heq⟩ := Option.map_eq_some_iff.mp hitem
          obtain ⟨rfl, rfl⟩ := Prod.mk.inj heq
          rw [List.map_cons, List.map_cons, hsign.1]
          exact .mk (first.name?_eq ▸ hname) (derives_of_ofTokens he)
        · cases hitem
      · cases hitem
    · cases h
  · intro h
    generalize hks : item.map Token.kind = ks at h
    obtain @⟨kind, name, ks, e, hname, hvalue⟩ := h
    obtain ⟨first, rest, rfl, rfl, hrest⟩ := List.map_eq_cons_iff.mp hks
    obtain ⟨sign, value, rfl, hsign, rfl⟩ := List.map_eq_cons_iff.mp hrest
    have hne : value ≠ [] := fun hnil => hvalue.ne_nil (by rw [hnil, List.map_nil])
    have hparts : assignment? (first :: sign :: value) = some (name, value) := by
      rw [assignment?, if_pos ⟨hsign, hne⟩, first.name?_eq, hname, Option.map_some]
    rw [parseAssignment, hparts]
    exact map_eq_ok_iff.mpr ⟨_, Expr.ofTokens_of_derives arguments hvalue, rfl⟩

theorem Assigns.unsplit (h : Assigns ks assignment) : Unsplit 0 ks := by
  obtain ⟨hname, hvalue⟩ := h
  refine .cons ?_ (.cons (by simp [TokenKind.IsInner]) hvalue.unsplit)
  refine ⟨?_, ?_, ?_⟩ <;> rintro rfl <;> cases hname

theorem Assigns.ne_nil (h : Assigns ks assignment) : ks ≠ [] := by
  cases h
  simp

/-! ## Lists -/

/-- The kinds of tokens that spell assignments with commas between them. -/
inductive AssignsAll : List TokenKind → List Assignment → Prop where
  | one {ks x} : Assigns ks x → AssignsAll ks [x]
  | more {ks x ks' xs} :
    Assigns ks x → AssignsAll ks' xs → AssignsAll (ks ++ .comma :: ks') (x :: xs)

/-- Two lists with a comma between them are one list. -/
theorem AssignsAll.append (h : AssignsAll ks xs) (h' : AssignsAll ks' ys) :
    AssignsAll (ks ++ .comma :: ks') (xs ++ ys) := by
  induction h with
  | one hx => exact .more hx h'
  | more hx _ ih =>
    rw [List.append_assoc, List.cons_append, List.cons_append]
    exact .more hx ih

theorem Listed.assignsAll (h : Listed items ts)
    (hitems : List.Forall₂ (fun item x => Assigns (item.map Token.kind) x) items xs) :
    AssignsAll (ts.map Token.kind) xs := by
  induction h generalizing xs with
  | one part =>
    obtain ⟨x, rest, hx, hrest, rfl⟩ := List.forall₂_cons_left_iff.mp hitems
    obtain rfl := List.forall₂_nil_left_iff.mp hrest
    exact .one hx
  | more part hcomma _ ih =>
    obtain ⟨x, rest, hx, hrest, rfl⟩ := List.forall₂_cons_left_iff.mp hitems
    rw [List.map_append, List.map_cons, hcomma]
    exact .more hx (ih hrest)

/-- Splitting a list of assignments at its commas gives the assignments. -/
theorem AssignsAll.forall₂_splitCommas (h : AssignsAll ks xs) (hts : ts.map Token.kind = ks) :
    List.Forall₂ (fun item x => Assigns (item.map Token.kind) x) (splitCommas ts) xs := by
  induction h generalizing ts with
  | one hx =>
    subst hts
    rw [hx.unsplit.splitCommas_eq]
    exact .cons hx .nil
  | more hx _ ih =>
    obtain ⟨front, behind, rfl, rfl, hbehind⟩ := List.map_eq_append_iff.mp hts
    obtain ⟨comma, back, rfl, hcomma, hback⟩ := List.map_eq_cons_iff.mp hbehind
    rw [hx.unsplit.splitCommas_comma hcomma back]
    exact .cons hx (ih hback)

/-! ## The stage -/

theorem someTokens_eq_ok_iff :
    someTokens arguments = .ok ts ↔ tokens arguments = .ok ts ∧ ts ≠ [] := by
  constructor
  · intro h
    obtain ⟨all, hall, h⟩ := bind_eq_ok_iff.mp h
    split at h
    · cases h
    · rename_i hne
      cases h
      exact ⟨hall, by simpa using hne⟩
  · rintro ⟨hts, hne⟩
    rw [someTokens, hts]
    simp [bind, Except.bind, hne]

theorem listItems_eq_ok_iff :
    listItems arguments ts = .ok items ↔ items = splitCommas ts ∧ ∀ item ∈ items, item ≠ [] := by
  rw [listItems]
  cases hempty : (splitCommas ts).findIdx? List.isEmpty with
  | none =>
    rw [List.findIdx?_eq_none_iff] at hempty
    constructor
    · rintro ⟨⟩
      exact ⟨rfl, fun item hitem => by simpa using hempty item hitem⟩
    · rintro ⟨rfl, -⟩
      rfl
  | some index =>
    obtain ⟨hindex, hitem, -⟩ := List.findIdx?_eq_some_iff_getElem.mp hempty
    constructor
    · rintro ⟨⟩
    · rintro ⟨rfl, hne⟩
      exact absurd (List.isEmpty_iff.mp hitem) (hne _ (List.getElem_mem hindex))

theorem parseStage_extend (arguments : List Char) :
    parseStage ("extend ".toList ++ arguments) =
      (do
        let items ← listItems (' ' :: arguments) (← someTokens (' ' :: arguments))
        return .extend (← items.mapM (parseAssignment (' ' :: arguments)))) := by
  have hkeyword : String.ofList (("extend".toList).map Char.toLower) = "extend" := by decide
  have htake : ("extend ".toList ++ arguments).takeWhile isKeywordChar = "extend".toList := rfl
  have hdrop : ("extend ".toList ++ arguments).dropWhile isKeywordChar = ' ' :: arguments := rfl
  unfold parseStage
  rw [htake, hdrop, hkeyword]
  rfl

/-- The stage reads the lists of assignments, and nothing else. -/
theorem parseStage_extend_iff :
    parseStage ("extend ".toList ++ arguments) = .ok (.extend xs) ↔
      ∃ ts, tokens (' ' :: arguments) = .ok ts ∧ AssignsAll (ts.map Token.kind) xs := by
  rw [parseStage_extend]
  simp only [bind_eq_ok_iff, someTokens_eq_ok_iff, listItems_eq_ok_iff, mapM_eq_ok_iff,
    parseAssignment_eq_ok_iff, pure_eq_ok_iff, Stage.extend.injEq, exists_eq_right]
  constructor
  · rintro ⟨ts, ⟨hts, -⟩, items, ⟨rfl, -⟩, hitems⟩
    exact ⟨ts, hts, (listed_splitCommasFrom 0 ts).assignsAll hitems⟩
  · rintro ⟨ts, hts, hall⟩
    have hitems := hall.forall₂_splitCommas rfl
    have hne : ts ≠ [] := by
      rintro rfl
      cases hitems with
      | cons hx _ => exact hx.ne_nil rfl
    have hparts : ∀ item ∈ splitCommas ts, item ≠ [] := by
      refine ((List.forall₂_and_left _ _).mp (hitems.imp fun item x hx => ⟨?_, hx⟩)).1
      exact fun hnil => hx.ne_nil (by rw [hnil, List.map_nil])
    exact ⟨ts, ⟨hts, hne⟩, splitCommas ts, ⟨rfl, hparts⟩, hitems⟩

/-- The assignments of two stages stand in one, with a comma between them. -/
theorem parseStage_extend_append {a b : String}
    (ha : parseStage ("extend " ++ a).toList = .ok (.extend xs))
    (hb : parseStage ("extend " ++ b).toList = .ok (.extend ys)) :
    parseStage ("extend " ++ a ++ ", " ++ b).toList = .ok (.extend (xs ++ ys)) := by
  rw [String.toList_append, parseStage_extend_iff] at ha hb
  obtain ⟨front, hfront, hxs⟩ := ha
  obtain ⟨back, hback, hys⟩ := hb
  have hscan := (scans_of_tokensFrom hfront).append_break (scans_of_tokensFrom hback).comma
    (by decide)
  obtain ⟨ts, hts, hkinds⟩ := hscan.tokens_eq
  have htext : ("extend " ++ a ++ ", " ++ b).toList =
      "extend ".toList ++ (a.toList ++ ',' :: ' ' :: b.toList) := by
    simp [String.toList_append]
  rw [htext, parseStage_extend_iff]
  exact ⟨ts, hts, hkinds ▸ hxs.append hys⟩

end PipeSql.Query
