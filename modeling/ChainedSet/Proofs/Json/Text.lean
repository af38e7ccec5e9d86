import ChainedSet.Proofs.Json.Value

/-!
# The text of arrays and objects

The text of a value, put together from the texts of its parts: an array is its items between
brackets, with commas between them (`render_array`), an object its members between braces, each
a name in quotes, a colon and a value (`render_object`). The names are those that need no escape.
-/

namespace ChainedSet.Json

/-- The text of an array, from the texts of its items. -/
def listText (items : List String) : String := "[" ++ ",".intercalate items ++ "]"

/-- The text of a member, from its name and the text of its value. -/
def memberText (name value : String) : String := "\"" ++ name ++ "\":" ++ value

/-- The text of an object, from the names of its members and the texts of their values. -/
def objectText (fields : List (String × String)) : String :=
  "\x7b" ++ ",".intercalate (fields.map fun f => memberText f.1 f.2) ++ "\x7d"

namespace Value

/-- The characters of a value. -/
def chars (v : Value) : List Char := v.tokens.flatMap Token.text

/-- The characters of a member whose name needs no escape. -/
def memberChars (m : String × Value) : List Char :=
  '"' :: (m.1.toList ++ '"' :: ':' :: m.2.chars)

/-- A name that is written as it is. -/
def IsPlain (name : String) : Prop := name.toList.flatMap escapeChar = name.toList

instance : DecidablePred IsPlain := fun name =>
  inferInstanceAs (Decidable (name.toList.flatMap escapeChar = name.toList))

theorem toList_render (v : Value) : v.render.toList = v.chars := String.toList_ofList

theorem toList_memberText (m : String × Value) :
    (memberText m.1 m.2.render).toList = memberChars m := by
  simp [memberText, memberChars, toList_render]

theorem chars_append_itemTokens (v : Value) (vs : List Value) :
    v.chars ++ (itemTokens vs).flatMap Token.text =
      [','].intercalate ((v :: vs).map chars) ++ [']'] := by
  induction vs generalizing v with
  | nil =>
    rw [List.map_singleton, List.intercalate_singleton]
    rfl
  | cons w vs ih =>
    have hitems : (itemTokens (w :: vs)).flatMap Token.text =
        ',' :: (w.chars ++ (itemTokens vs).flatMap Token.text) := by
      rw [itemTokens, List.flatMap_append, List.flatMap_cons]
      rfl
    rw [hitems, ih]
    simp only [List.map_cons, List.intercalate_cons_cons, List.cons_append, List.append_assoc,
      List.nil_append]

theorem flatMap_member {m : String × Value} (h : IsPlain m.1) (ts : List Token) :
    (.string m.1 :: .colon :: (m.2.tokens ++ ts)).flatMap Token.text =
      memberChars m ++ ts.flatMap Token.text := by
  rw [IsPlain] at h
  simp [memberChars, chars, Token.text, escape, h]

theorem memberChars_append_memberTokens {m : String × Value} {ms : List (String × Value)}
    (hms : ∀ n ∈ ms, IsPlain n.1) :
    memberChars m ++ (memberTokens ms).flatMap Token.text =
      [','].intercalate ((m :: ms).map memberChars) ++ ['\x7d'] := by
  induction ms generalizing m with
  | nil =>
    rw [List.map_singleton, List.intercalate_singleton]
    rfl
  | cons n ms ih =>
    obtain ⟨hn, hms⟩ := List.forall_mem_cons.mp hms
    have hmembers : (memberTokens (n :: ms)).flatMap Token.text =
        ',' :: (memberChars n ++ (memberTokens ms).flatMap Token.text) := by
      rw [← List.append_nil (memberTokens (n :: ms)), memberTokens_append, List.flatMap_cons,
        flatMap_member hn, List.append_nil]
      rfl
    rw [hmembers, ih hms]
    simp only [List.map_cons, List.intercalate_cons_cons, List.cons_append, List.append_assoc,
      List.nil_append]

theorem render_array (vs : List Value) : (array vs).render = listText (vs.map render) := by
  apply String.toList_inj.mp
  rw [toList_render, listText, String.toList_append, String.toList_append,
    String.toList_intercalate, List.map_map]
  have hchars : String.toList ∘ render = chars := funext toList_render
  rw [hchars]
  cases vs with
  | nil => rfl
  | cons v vs =>
    show (array (v :: vs)).chars = '[' :: ([','].intercalate ((v :: vs).map chars) ++ [']'])
    rw [← chars_append_itemTokens, chars, tokens, List.flatMap_append, List.flatMap_cons]
    rfl

theorem render_object {ms : List (String × Value)} (h : ∀ m ∈ ms, IsPlain m.1) :
    (object ms).render = objectText (ms.map fun m => (m.1, m.2.render)) := by
  apply String.toList_inj.mp
  rw [toList_render, objectText, String.toList_append, String.toList_append,
    String.toList_intercalate, List.map_map, List.map_map]
  have hchars : (String.toList ∘ fun f : String × String => memberText f.1 f.2) ∘
      (fun m : String × Value => (m.1, m.2.render)) = memberChars := funext toList_memberText
  rw [hchars]
  cases ms with
  | nil => rfl
  | cons m ms =>
    obtain ⟨hm, hms⟩ := List.forall_mem_cons.mp h
    show (object (m :: ms)).chars =
      '\x7b' :: ([','].intercalate ((m :: ms).map memberChars) ++ ['\x7d'])
    rw [← memberChars_append_memberTokens hms, chars, ← List.append_nil (tokens _),
      tokens_object_append, List.flatMap_cons, flatMap_member hm, List.append_nil]
    rfl

end Value

end ChainedSet.Json
