import PayrollSeal.Json.Builder
import PayrollSeal.Proofs.Json.Lexer

/-!
# Values are built back from their tokens

The tokens of a value build that value again (`build?_tokens`), so a text that spells a value is
read as it (`ofText?_of_spells`). A value that is `Plain` also passes the limits that are set for
some texts (`ofPlainText?_of_spells`).
-/

namespace PayrollSeal.Json

/-! ## Building -/

namespace Builder

theorem foldlM_step_cons {builder next : Builder} {token : Token}
    (h : builder.step token = some next) (rest : List Token) :
    (token :: rest).foldlM step builder = rest.foldlM step next := by
  rw [List.foldlM_cons, h]
  rfl

/-- A value starts with a token that does not end an array. -/
theorem exists_tokens_eq (value : Json) :
    ∃ token rest, value.tokens = token :: rest ∧ token ≠ .closeArray := by
  cases value with
  | array items => cases items <;> exact ⟨_, _, rfl, Token.noConfusion⟩
  | object members => cases members <;> exact ⟨_, _, rfl, Token.noConfusion⟩
  | _ => exact ⟨_, _, rfl, Token.noConfusion⟩

/-- The first item of an array is built like any other. -/
theorem foldlM_step_firstItem (stack : List Open) (item : Json) (rest : List Token) :
    (item.tokens ++ rest).foldlM step (.firstItem stack) =
      (item.tokens ++ rest).foldlM step (.value (.array [] :: stack)) := by
  obtain ⟨token, others, htokens, htoken⟩ := exists_tokens_eq item
  have hstep : step (.firstItem stack) token = step (.value (.array [] :: stack)) token := by
    cases token with
    | closeArray => exact absurd rfl htoken
    | _ => rfl
  rw [htokens, List.cons_append, List.foldlM_cons, List.foldlM_cons, hstep]

mutual

/-- The tokens of a value leave the value. -/
theorem foldlM_step_tokens (stack : List Open) (rest : List Token) :
    ∀ v : Json, (v.tokens ++ rest).foldlM step (.value stack) = rest.foldlM step (.after v stack)
  | .null => rfl
  | .bool _ => rfl
  | .number _ => rfl
  | .text _ => rfl
  | .array [] => rfl
  | .array (item :: items) => by
    rw [tokens, List.cons_append, List.append_assoc, foldlM_step_cons rfl, foldlM_step_firstItem,
      foldlM_step_tokens, foldlM_step_tokensOfItems]
    rfl
  | .object [] => rfl
  | .object ((key, v) :: members) => by
    simp only [tokens, List.cons_append, List.append_assoc]
    rw [foldlM_step_cons rfl, foldlM_step_cons rfl, foldlM_step_cons rfl, foldlM_step_tokens,
      foldlM_step_tokensOfMembers]
    rfl

/-- The tokens behind an item add the items that follow, and end the array. -/
theorem foldlM_step_tokensOfItems (stack : List Open) (rest : List Token) :
    ∀ (items done : List Json) (last : Json),
      (tokensOfItems items ++ rest).foldlM step (.after last (.array done :: stack)) =
        rest.foldlM step (.after (.array (done.reverse ++ last :: items)) stack)
  | [], done, last => by
    rw [List.append_cons, ← List.reverse_cons, List.append_nil]
    rfl
  | item :: items, done, last => by
    rw [tokensOfItems, List.cons_append, List.append_assoc, foldlM_step_cons rfl,
      foldlM_step_tokens, foldlM_step_tokensOfItems, List.reverse_cons, List.append_assoc,
      List.singleton_append]

/-- The tokens behind a member add the members that follow, and end the object. -/
theorem foldlM_step_tokensOfMembers (stack : List Open) (rest : List Token) :
    ∀ (members done : List (Text × Json)) (key : Text) (last : Json),
      (tokensOfMembers members ++ rest).foldlM step (.after last (.object done key :: stack)) =
        rest.foldlM step (.after (.object (done.reverse ++ (key, last) :: members)) stack)
  | [], done, key, last => by
    rw [List.append_cons, ← List.reverse_cons, List.append_nil]
    rfl
  | (next, v) :: members, done, key, last => by
    simp only [tokensOfMembers, List.cons_append, List.append_assoc]
    rw [foldlM_step_cons rfl, foldlM_step_cons rfl, foldlM_step_cons rfl, foldlM_step_tokens,
      foldlM_step_tokensOfMembers, List.reverse_cons, List.append_assoc, List.singleton_append]

end

end Builder

/-- The tokens of a value build it. -/
theorem build?_tokens (value : Json) : build? value.tokens = some value := by
  have hrun := Builder.foldlM_step_tokens [] [] value
  rw [List.append_nil] at hrun
  rw [build?, hrun]
  rfl

/-- A text is read as the value that it spells. -/
theorem ofText?_of_spells {text : String} {value : Json} (h : Spells text value) :
    ofText? text = some value := by
  rw [ofText?, h, Option.bind_some, build?_tokens]

/-! ## Limits -/

/-- Everything in a value means something by itself, and arrays and objects nest at most `depth`
deep. -/
inductive Plain : Nat → Json → Prop
  | null {depth : Nat} : Plain depth .null
  | bool {depth : Nat} (b : Bool) : Plain depth (.bool b)
  | number {depth : Nat} {n : Number} (h : n.isFinite = true) : Plain depth (.number n)
  | text {depth : Nat} (s : String) : Plain depth (.text (some s))
  | array {depth : Nat} {items : List Json} (h : ∀ item ∈ items, Plain depth item) :
    Plain (depth + 1) (.array items)
  | object {depth : Nat} {members : List (Text × Json)}
    (hnames : ∀ member ∈ members, member.1.isSome = true)
    (h : ∀ member ∈ members, Plain depth member.2) : Plain (depth + 1) (.object members)

/-- The limits that are set for the tokens of a text. -/
def withinLimits (depth : Nat) (tokens : List Token) : Bool :=
  tokens.all Token.isPlain && nestsWithin depth tokens

/-- The items after the first use up the depth of their array, which then ends. -/
theorem withinLimits_tokensOfItems {depth : Nat} {items : List Json}
    (h : ∀ item ∈ items, ∀ rest, withinLimits depth (item.tokens ++ rest) = withinLimits depth rest)
    (rest : List Token) :
    withinLimits depth (tokensOfItems items ++ rest) = withinLimits (depth + 1) rest := by
  induction items with
  | nil => rfl
  | cons item items ih =>
    obtain ⟨hitem, hitems⟩ := List.forall_mem_cons.mp h
    rw [tokensOfItems, List.cons_append, List.append_assoc]
    exact (hitem _).trans (ih hitems)

/-- The members after the first use up the depth of their object, which then ends. -/
theorem withinLimits_tokensOfMembers {depth : Nat} {members : List (Text × Json)}
    (hnames : ∀ member ∈ members, member.1.isSome = true)
    (h : ∀ member ∈ members, ∀ rest,
      withinLimits depth (member.2.tokens ++ rest) = withinLimits depth rest)
    (rest : List Token) :
    withinLimits depth (tokensOfMembers members ++ rest) = withinLimits (depth + 1) rest := by
  induction members with
  | nil => rfl
  | cons member members ih =>
    obtain ⟨name, value⟩ := member
    obtain ⟨hvalue, hvalues⟩ := List.forall_mem_cons.mp h
    obtain ⟨hname, hothers⟩ := List.forall_mem_cons.mp hnames
    obtain ⟨name, rfl⟩ := Option.isSome_iff_exists.mp hname
    simp only [tokensOfMembers, List.cons_append, List.append_assoc]
    exact (hvalue _).trans (ih hothers hvalues)

/-- A plain value is within the limits, and what follows it is under the same limits as before. -/
theorem Plain.withinLimits_tokens {depth : Nat} {value : Json} (h : Plain depth value)
    (rest : List Token) : withinLimits depth (value.tokens ++ rest) = withinLimits depth rest := by
  induction h generalizing rest with
  | null => rfl
  | bool b => rfl
  | number hn =>
    simp only [tokens, withinLimits, List.cons_append, List.nil_append, List.all_cons,
      Token.isPlain, hn, Bool.true_and, nestsWithin]
  | text s => rfl
  | @array depth items hitems ih =>
    cases items with
    | nil => rfl
    | cons item items =>
      obtain ⟨hitem, hrest⟩ := List.forall_mem_cons.mp ih
      rw [tokens, List.cons_append, List.append_assoc]
      exact (hitem _).trans (withinLimits_tokensOfItems hrest rest)
  | @object depth members hnames hvalues ih =>
    cases members with
    | nil => rfl
    | cons member members =>
      obtain ⟨name, value⟩ := member
      obtain ⟨hvalue, hrest⟩ := List.forall_mem_cons.mp ih
      obtain ⟨hname, hothers⟩ := List.forall_mem_cons.mp hnames
      obtain ⟨name, rfl⟩ := Option.isSome_iff_exists.mp hname
      simp only [tokens, List.cons_append, List.append_assoc]
      exact (hvalue _).trans (withinLimits_tokensOfMembers hothers hrest rest)

/-- A text is read as the plain value that it spells. -/
theorem ofPlainText?_of_spells {depth : Nat} {text : String} {value : Json}
    (h : Spells text value) (hplain : Plain depth value) :
    ofPlainText? depth text = some value := by
  have hlimits : withinLimits depth value.tokens = true := by
    have hnil := hplain.withinLimits_tokens []
    rw [List.append_nil] at hnil
    exact hnil
  rw [ofPlainText?, h]
  show (guard (withinLimits depth value.tokens = true) >>= fun _ => build? value.tokens) = _
  rw [hlimits, build?_tokens]
  rfl

end PayrollSeal.Json
