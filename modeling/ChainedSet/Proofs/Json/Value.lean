import ChainedSet.Json.Value
import ChainedSet.Proofs.Json.Token

/-!
# Values are read as they are written

The two halves of reading a value, each by induction on the value. Its tokens can be told apart
without blanks, since a delimiter follows each value inside a container (`legible_tokens_append`).
And the machine that reads them goes from where a value is to come to where that value is complete,
with the open containers as they were (`isRead_of_writable`). Together: a value with numerals that
can be read, and nested no deeper than the machine allows, is read back from its text
(`parse?_render`).
-/

namespace ChainedSet.Json.Value

/-- A value that can be written and read: its numerals can, and at most `room` containers are open
at a time. -/
inductive Writable : Nat → Value → Prop
  | null (room : Nat) : Writable room .null
  | bool (room : Nat) (b : Bool) : Writable room (.bool b)
  | number (room : Nat) {n : Numeral} : n.WellFormed → n.fits = true → Writable room (.number n)
  | string (room : Nat) (s : String) : Writable room (.string s)
  | array {room : Nat} {items : List Value} :
      (∀ v ∈ items, Writable room v) → Writable (room + 1) (.array items)
  | object {room : Nat} {members : List (String × Value)} :
      (∀ m ∈ members, Writable room m.2) → Writable (room + 1) (.object members)

/-! ## The tokens of a value -/

theorem tokens_array_append (v : Value) (vs : List Value) (rest : List Token) :
    (array (v :: vs)).tokens ++ rest =
      .openBracket :: (v.tokens ++ (itemTokens vs ++ rest)) := by
  simp only [tokens, List.cons_append, List.append_assoc]

theorem tokens_object_append (k : String) (v : Value) (ms : List (String × Value))
    (rest : List Token) :
    (object ((k, v) :: ms)).tokens ++ rest =
      .openBrace :: .string k :: .colon :: (v.tokens ++ (memberTokens ms ++ rest)) := by
  simp only [tokens, List.cons_append, List.append_assoc]

theorem itemTokens_append (v : Value) (vs : List Value) (rest : List Token) :
    itemTokens (v :: vs) ++ rest = .comma :: (v.tokens ++ (itemTokens vs ++ rest)) := by
  simp only [itemTokens, List.cons_append, List.append_assoc]

theorem memberTokens_append (k : String) (v : Value) (ms : List (String × Value))
    (rest : List Token) :
    memberTokens ((k, v) :: ms) ++ rest =
      .comma :: .string k :: .colon :: (v.tokens ++ (memberTokens ms ++ rest)) := by
  simp only [memberTokens, List.cons_append, List.append_assoc]

section Tokens

open Token (Legible)

variable {rest : List Token}

/-- A value may stand before these tokens. -/
structure Delimited (rest : List Token) : Prop where
  legible : Legible rest
  delimiter : ∀ t ∈ rest.head?, t.isDelimiter = true

theorem Delimited.cons (h : Legible rest) {t : Token} (ht : t.isDelimiter = true) :
    Delimited (t :: rest) where
  legible := h.delimiter ht
  delimiter := fun _ hu => Option.some.inj hu ▸ ht

theorem Delimited.legible_cons (h : Delimited rest) {t : Token} (ht : t.Writable) :
    Legible (t :: rest) :=
  Token.legible_cons_iff.mpr ⟨ht, fun u hu => Or.inr (h.delimiter u hu), h.legible⟩

/-- A key and its colon may stand before any tokens. -/
theorem legible_key (k : String) (h : Legible rest) :
    Legible (.string k :: .colon :: rest) := by
  have hcolon : Delimited (.colon :: rest) := Delimited.cons h rfl
  exact hcolon.legible_cons trivial

theorem delimited_itemTokens_append {vs : List Value}
    (hvs : ∀ v ∈ vs, ∀ {rest}, Delimited rest → Legible (v.tokens ++ rest)) (h : Legible rest) :
    Delimited (itemTokens vs ++ rest) := by
  induction vs with
  | nil => exact Delimited.cons h rfl
  | cons v vs ih =>
    have hrest := ih fun w hw => hvs w (List.mem_cons_of_mem v hw)
    rw [itemTokens_append]
    exact Delimited.cons (hvs v List.mem_cons_self hrest) rfl

theorem delimited_memberTokens_append {ms : List (String × Value)}
    (hms : ∀ m ∈ ms, ∀ {rest}, Delimited rest → Legible (m.2.tokens ++ rest)) (h : Legible rest) :
    Delimited (memberTokens ms ++ rest) := by
  induction ms with
  | nil => exact Delimited.cons h rfl
  | cons m ms ih =>
    obtain ⟨k, v⟩ := m
    have hrest := ih fun w hw => hms w (List.mem_cons_of_mem (k, v) hw)
    rw [memberTokens_append]
    exact Delimited.cons (legible_key k (hms (k, v) List.mem_cons_self hrest)) rfl

theorem legible_tokens_append {room : Nat} {v : Value} (h : Writable room v)
    (hrest : Delimited rest) : Legible (v.tokens ++ rest) := by
  induction h generalizing rest with
  | null => exact hrest.legible_cons trivial
  | bool => exact hrest.legible_cons trivial
  | number _ hn hfits => exact hrest.legible_cons ⟨hn, hfits⟩
  | string => exact hrest.legible_cons trivial
  | @array _ items _ ih =>
    cases items with
    | nil => exact (hrest.legible.delimiter rfl).delimiter rfl
    | cons v vs =>
      have hitems := delimited_itemTokens_append
        (fun w hw => ih w (List.mem_cons_of_mem v hw)) hrest.legible
      rw [tokens_array_append]
      exact (ih v List.mem_cons_self hitems).delimiter rfl
  | @object _ members _ ih =>
    cases members with
    | nil => exact (hrest.legible.delimiter rfl).delimiter rfl
    | cons m ms =>
      obtain ⟨k, v⟩ := m
      have hmembers := delimited_memberTokens_append
        (fun w hw => ih w (List.mem_cons_of_mem (k, v) hw)) hrest.legible
      rw [tokens_object_append]
      exact (legible_key k (ih (k, v) List.mem_cons_self hmembers)).delimiter rfl

end Tokens

/-! ## Reading the tokens -/

section Reading

open Progress (next)

variable {room : Nat} {stack : List Frame} {ts : List Token}

theorem foldlM_next_cons {p q : Progress} {t : Token} (h : next p t = some q) (ts : List Token) :
    (t :: ts).foldlM next p = ts.foldlM next q := by
  rw [List.foldlM_cons, h]
  rfl

/-- Reading the tokens of the value completes it, if there is room for it. -/
def IsRead (room : Nat) (v : Value) : Prop :=
  ∀ (opened : Bool) (stack : List Frame) (ts : List Token), stack.length + room ≤ maxDepth →
    (v.tokens ++ ts).foldlM next (.value opened stack) = ts.foldlM next (.complete v stack)

/-- Reading a member, from its key to its value. -/
theorem foldlM_member {v : Value} (h : IsRead room v) {opened : Bool} {k : String}
    {members : List (String × Value)} (hroom : stack.length + 1 + room ≤ maxDepth) :
    (.string k :: .colon :: (v.tokens ++ ts)).foldlM next (.key opened members stack) =
      ts.foldlM next (.complete v (.object members k :: stack)) := by
  have hkey : next (.key opened members stack) (.string k) = some (.colon members k stack) := rfl
  have hcolon : next (.colon members k stack) .colon =
      some (.value false (.object members k :: stack)) := rfl
  rw [foldlM_next_cons hkey, foldlM_next_cons hcolon]
  exact h false (.object members k :: stack) ts hroom

theorem foldlM_itemTokens {v : Value} {vs items : List Value} (hvs : ∀ w ∈ vs, IsRead room w)
    (hroom : stack.length + 1 + room ≤ maxDepth) :
    (itemTokens vs ++ ts).foldlM next (.complete v (.array items :: stack)) =
      ts.foldlM next (.complete (.array (items.reverse ++ v :: vs)) stack) := by
  induction vs generalizing v items with
  | nil =>
    have hclose : next (.complete v (.array items :: stack)) .closeBracket =
        some (.complete (.array (v :: items).reverse) stack) := rfl
    rw [itemTokens, List.singleton_append, foldlM_next_cons hclose, List.reverse_cons]
  | cons w vs ih =>
    have hcomma : next (.complete v (.array items :: stack)) .comma =
        some (.value false (.array (v :: items) :: stack)) := rfl
    have hitem := hvs w List.mem_cons_self false (.array (v :: items) :: stack)
      (itemTokens vs ++ ts) hroom
    rw [itemTokens_append, foldlM_next_cons hcomma, hitem,
      ih fun u hu => hvs u (List.mem_cons_of_mem w hu), List.reverse_cons, List.append_assoc,
      List.singleton_append]

theorem foldlM_memberTokens {k : String} {v : Value} {ms members : List (String × Value)}
    (hms : ∀ m ∈ ms, IsRead room m.2) (hroom : stack.length + 1 + room ≤ maxDepth) :
    (memberTokens ms ++ ts).foldlM next (.complete v (.object members k :: stack)) =
      ts.foldlM next (.complete (.object (members.reverse ++ (k, v) :: ms)) stack) := by
  induction ms generalizing k v members with
  | nil =>
    have hclose : next (.complete v (.object members k :: stack)) .closeBrace =
        some (.complete (.object ((k, v) :: members).reverse) stack) := rfl
    rw [memberTokens, List.singleton_append, foldlM_next_cons hclose, List.reverse_cons]
  | cons m ms ih =>
    obtain ⟨k', w⟩ := m
    have hcomma : next (.complete v (.object members k :: stack)) .comma =
        some (.key false ((k, v) :: members) stack) := rfl
    rw [memberTokens_append, foldlM_next_cons hcomma,
      foldlM_member (hms (k', w) List.mem_cons_self) hroom,
      ih fun u hu => hms u (List.mem_cons_of_mem (k', w) hu), List.reverse_cons,
      List.append_assoc, List.singleton_append]

theorem isRead_of_writable {v : Value} (h : Writable room v) : IsRead room v := by
  induction h with
  | null => exact fun _ _ _ _ => rfl
  | bool => exact fun _ _ _ _ => rfl
  | number => exact fun _ _ _ _ => rfl
  | string => exact fun _ _ _ _ => rfl
  | @array room items _ ih =>
    intro opened stack ts hroom
    have hopen : next (.value opened stack) .openBracket =
        some (.value true (.array [] :: stack)) := if_pos (by omega)
    have hinner : stack.length + 1 + room ≤ maxDepth := by omega
    cases items with
    | nil =>
      rw [tokens, List.cons_append, foldlM_next_cons hopen]
      rfl
    | cons v vs =>
      have hitem := ih v List.mem_cons_self true (.array [] :: stack) (itemTokens vs ++ ts) hinner
      rw [tokens_array_append, foldlM_next_cons hopen, hitem,
        foldlM_itemTokens (fun w hw => ih w (List.mem_cons_of_mem v hw)) hinner]
      rfl
  | @object room members _ ih =>
    intro opened stack ts hroom
    have hopen : next (.value opened stack) .openBrace = some (.key true [] stack) :=
      if_pos (by omega)
    have hinner : stack.length + 1 + room ≤ maxDepth := by omega
    cases members with
    | nil =>
      rw [tokens, List.cons_append, foldlM_next_cons hopen]
      rfl
    | cons m ms =>
      obtain ⟨k, v⟩ := m
      rw [tokens_object_append, foldlM_next_cons hopen,
        foldlM_member (ih (k, v) List.mem_cons_self) hinner,
        foldlM_memberTokens (fun w hw => ih w (List.mem_cons_of_mem (k, v) hw)) hinner]
      rfl

end Reading

/-- A value is read back from its tokens. -/
theorem ofTokens?_tokens {v : Value} (h : Writable maxDepth v) : ofTokens? v.tokens = some v := by
  have hread := isRead_of_writable h false [] [] (Nat.le_of_eq (Nat.zero_add _))
  rw [List.append_nil] at hread
  rw [ofTokens?, hread]
  rfl

/-- **A value is read back from its text.** -/
theorem parse?_render {v : Value} (h : Writable maxDepth v) : parse? v.render = some v := by
  have hlegible := legible_tokens_append h ⟨Token.legible_nil, fun _ ht => nomatch ht⟩
  rw [List.append_nil] at hlegible
  rw [parse?, render, String.toList_ofList, Token.scan_flatMap_text hlegible]
  exact ofTokens?_tokens h

end ChainedSet.Json.Value
