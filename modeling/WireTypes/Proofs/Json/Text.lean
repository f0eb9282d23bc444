import Mathlib.Data.List.Basic
import WireTypes.Json.Output
import WireTypes.Json.Token
import WireTypes.Proofs.Text.Digits

/-!
# JSON texts tell their values

No two values have the same text, and a text shows where the value ends (`separable_text`,
`render_inj`).

* `next?_quote`: what is written as a string is read back as that string, whatever characters it
  has;
* `separated_append_inj`: items between commas tell the list of items, if each of them shows where
  it ends;
* `lead?_text`: the first character tells which kind of value follows.
-/

namespace WireTypes.Json

/-! ## Strings -/

theorem hexUnit?_control : ∀ n < 0x20,
    Token.hexUnit? '0' '0' (Nat.digitChar (n / 16)) (Nat.digitChar (n % 16)) = some n := by decide

theorem scanString_control {c : Char} (h : c.toNat < 0x20) (done rest : List Char) :
    Token.scanString done
        ('\\' :: 'u' :: '0' :: '0' :: Nat.digitChar (c.toNat / 16) ::
          Nat.digitChar (c.toNat % 16) :: rest) =
      Token.scanString (c :: done) rest := by
  have htrail : Token.isTrailing c.toNat = false := by simp [Token.isTrailing]; omega
  have hlead : Token.isLeading c.toNat = false := by simp [Token.isLeading]; omega
  rw [Token.scanString, hexUnit?_control c.toNat h]
  simp only [htrail, hlead, Char.ofNat_toNat]
  rfl

theorem scanString_plain {c : Char} (hmin : ¬ c.toNat < 0x20) (hquote : c ≠ '\"') (hback : c ≠ '\\')
    (done rest : List Char) :
    Token.scanString done (c :: rest) = Token.scanString (c :: done) rest := by
  rw [Token.scanString, if_neg hmin]
  all_goals simp_all

/-- Every character is read back, escaped or not. -/
theorem scanString_escape (c : Char) (done rest : List Char) :
    Token.scanString done ((escape c).toList ++ rest) = Token.scanString (c :: done) rest := by
  unfold escape
  split
  · simp [Token.scanString, Token.unescape?]
  · simp [Token.scanString, Token.unescape?]
  · simp [Token.scanString, Token.unescape?]
  · simp [Token.scanString, Token.unescape?]
  · simp [Token.scanString, Token.unescape?]
  · simp [Token.scanString, Token.unescape?]
  · simp [Token.scanString, Token.unescape?]
  · next hquote hback _ _ _ _ _ =>
    split
    · next h => simpa using scanString_control h done rest
    · next h => simpa using scanString_plain h hquote hback done rest

theorem scanString_escapes (s : List Char) : ∀ done rest : List Char,
    Token.scanString done ((s.flatMap fun c => (escape c).toList) ++ '\"' :: rest) =
      (.string (String.ofList (done.reverse ++ s)), rest) := by
  induction s with
  | nil =>
    intro done rest
    rw [List.append_nil, List.flatMap_nil, List.nil_append, Token.scanString]
  | cons c s ih =>
    intro done rest
    rw [List.flatMap_cons, List.append_assoc, scanString_escape, ih, List.reverse_cons,
      List.append_assoc]
    rfl

theorem toList_quote (s : String) :
    (quote s).toList = '\"' :: ((s.toList.flatMap fun c => (escape c).toList) ++ ['\"']) := by
  simp [quote, String.toList_join, List.flatMap_map]

theorem next?_quote (s : String) (rest : List Char) :
    Token.next? ((quote s).toList ++ rest) = some (.string s, rest) := by
  rw [toList_quote]
  show some
      (Token.scanString [] (((s.toList.flatMap fun c => (escape c).toList) ++ ['\"']) ++ rest)) = _
  rw [List.append_assoc, List.singleton_append, scanString_escapes, List.reverse_nil,
    List.nil_append, String.ofList_toList]

theorem quote_append_inj {s s' : String} {xs ys : List Char}
    (h : (quote s).toList ++ xs = (quote s').toList ++ ys) : s = s' ∧ xs = ys := by
  have hread := congrArg Token.next? h
  rw [next?_quote, next?_quote] at hread
  cases hread
  exact ⟨rfl, rfl⟩

/-! ## Items -/

/-- The text of an item shows where it ends, if no digit follows. -/
def Separable {α : Type} (text : α → List Char) (a : α) : Prop :=
  ∀ (b : α) (xs ys : List Char), NoDigitAhead xs → NoDigitAhead ys → text a ++ xs = text b ++ ys →
    a = b ∧ xs = ys

section Separated

variable {α : Type} {text : α → List Char} {stop : Char}

/-- Behind the first item, each comes with a comma before it. -/
theorem intercalate_cons (a : α) (as : List α) :
    [','].intercalate ((a :: as).map text) = text a ++ as.flatMap fun b => ',' :: text b := by
  induction as generalizing a with
  | nil => simp
  | cons b as ih =>
    rw [List.map_cons, List.map_cons, List.intercalate_cons_cons, ← List.map_cons, ih,
      List.flatMap_cons]
    simp

theorem noDigitAhead_items (hstop : stop.isDigit = false) (as : List α) (xs : List Char) :
    NoDigitAhead ((as.flatMap fun b => ',' :: text b) ++ stop :: xs) := by
  cases as with
  | nil => exact noDigitAhead_cons hstop xs
  | cons a as => exact noDigitAhead_cons (by decide) _

theorem items_append_inj (hcomma : stop ≠ ',') (hstop : stop.isDigit = false) {as : List α}
    (has : ∀ a ∈ as, Separable text a) : ∀ {bs : List α} {xs ys : List Char},
      (as.flatMap fun b => ',' :: text b) ++ stop :: xs =
        (bs.flatMap fun b => ',' :: text b) ++ stop :: ys →
      as = bs ∧ xs = ys := by
  induction as with
  | nil =>
    intro bs xs ys h
    cases bs with
    | nil => exact ⟨rfl, (List.cons.inj h).2⟩
    | cons b bs => exact absurd (List.cons.inj h).1 hcomma
  | cons a as ih =>
    intro bs xs ys h
    cases bs with
    | nil => exact absurd (List.cons.inj h).1.symm hcomma
    | cons b bs =>
      simp only [List.flatMap_cons, List.cons_append, List.append_assoc, List.cons.injEq,
        true_and] at h
      obtain ⟨rfl, hrest⟩ := has a List.mem_cons_self b _ _ (noDigitAhead_items hstop as xs)
        (noDigitAhead_items hstop bs ys) h
      obtain ⟨rfl, hend⟩ := ih (fun c hc => has c (List.mem_cons_of_mem a hc)) hrest
      exact ⟨rfl, hend⟩

/-- Items between commas, up to a character that begins none of them. -/
theorem separated_append_inj (hcomma : stop ≠ ',') (hstop : stop.isDigit = false)
    (hfirst : ∀ (a : α) (xs ys : List Char), text a ++ xs ≠ stop :: ys) {as bs : List α}
    (has : ∀ a ∈ as, Separable text a) {xs ys : List Char}
    (h : [','].intercalate (as.map text) ++ stop :: xs =
    [','].intercalate (bs.map text) ++ stop :: ys) :
    as = bs ∧ xs = ys := by
  cases as with
  | nil =>
    cases bs with
    | nil => exact ⟨rfl, (List.cons.inj h).2⟩
    | cons b bs =>
      rw [intercalate_cons, List.append_assoc] at h
      exact absurd h.symm (hfirst b _ _)
  | cons a as =>
    cases bs with
    | nil =>
      rw [intercalate_cons, List.append_assoc] at h
      exact absurd h (hfirst a _ _)
    | cons b bs =>
      rw [intercalate_cons, intercalate_cons, List.append_assoc, List.append_assoc] at h
      obtain ⟨rfl, hrest⟩ := has a List.mem_cons_self b _ _ (noDigitAhead_items hstop as xs)
        (noDigitAhead_items hstop bs ys) h
      obtain ⟨rfl, hend⟩ :=
        items_append_inj hcomma hstop (fun c hc => has c (List.mem_cons_of_mem a hc)) hrest
      exact ⟨rfl, hend⟩

end Separated

/-! ## Values -/

/-- The kinds of values. -/
inductive Kind where
  | word
  | number
  | string
  | array
  | object
  deriving DecidableEq

def kind : Json → Kind
  | .bool _ => .word
  | .number _ => .number
  | .string _ => .string
  | .array _ => .array
  | .object _ => .object

/-- The kind of value that a character begins. -/
def lead? (c : Char) : Option Kind :=
  if c.isDigit then some .number
  else
    match c with
    | 't' => some .word
    | 'f' => some .word
    | '\"' => some .string
    | '[' => some .array
    | '\x7b' => some .object
    | _ => none

def text (v : Json) : List Char := (render v).toList

def memberText (m : String × Json) : List Char := (quote m.1).toList ++ ':' :: text m.2

theorem renderItems_eq (vs : List Json) : renderItems vs = vs.map render := by
  induction vs with
  | nil => rfl
  | cons v vs ih => rw [renderItems, ih]; rfl

theorem renderMembers_eq (ms : List (String × Json)) :
    renderMembers ms = ms.map fun m => quote m.1 ++ ":" ++ render m.2 := by
  induction ms with
  | nil => rfl
  | cons m ms ih => obtain ⟨key, v⟩ := m; rw [renderMembers, ih]; rfl

theorem text_number (n : Nat) : text (.number n) = Nat.toDigits 10 n := by
  simp [text, render, toString, Nat.toList_repr]

theorem text_string (s : String) : text (.string s) = (quote s).toList := by
  rw [text, render]

theorem text_array (vs : List Json) :
    text (.array vs) = '[' :: ([','].intercalate (vs.map text) ++ [']']) := by
  simp only [text, render, renderItems_eq, String.toList_append,
    String.toList_intercalate, List.map_map]
  rfl

theorem text_object (ms : List (String × Json)) :
    text (.object ms) = '\x7b' :: ([','].intercalate (ms.map memberText) ++ ['\x7d']) := by
  have hmember : (String.toList ∘ fun m : String × Json => quote m.1 ++ ":" ++ render m.2) =
      memberText := by
    funext m
    simp [memberText, text]
  simp only [text, render, renderMembers_eq, String.toList_append, String.toList_intercalate,
    List.map_map, hmember]
  rfl

/-- The first character of a value tells its kind. -/
theorem lead?_text (v : Json) : ∃ c cs, text v = c :: cs ∧ lead? c = some v.kind := by
  cases v with
  | bool b =>
    cases b with
    | true => exact ⟨'t', _, rfl, rfl⟩
    | false => exact ⟨'f', _, rfl, rfl⟩
  | number n =>
    cases hdigits : Nat.toDigits 10 n with
    | nil => exact absurd hdigits Nat.toDigits_ne_nil
    | cons c cs =>
      have hc : c.isDigit = true :=
        Nat.isDigit_of_mem_toDigits (by decide) (by decide) (hdigits ▸ List.mem_cons_self)
      refine ⟨c, cs, (text_number n).trans hdigits, ?_⟩
      unfold lead?
      rw [if_pos hc]
      rfl
  | string s => exact ⟨'\"', _, (text_string s).trans (toList_quote s), rfl⟩
  | array vs => exact ⟨'[', _, text_array vs, rfl⟩
  | object ms => exact ⟨'\x7b', _, text_object ms, rfl⟩

theorem kind_eq_of_text {v w : Json} {xs ys : List Char} (h : text v ++ xs = text w ++ ys) :
    v.kind = w.kind := by
  obtain ⟨c, cs, hv, hc⟩ := lead?_text v
  obtain ⟨d, ds, hw, hd⟩ := lead?_text w
  rw [hv, hw] at h
  obtain rfl := (List.cons.inj h).1
  exact Option.some.inj (hc.symm.trans hd)

theorem text_append_ne {stop : Char} (hstop : lead? stop = none) (v : Json) (xs ys : List Char) :
    text v ++ xs ≠ stop :: ys := by
  obtain ⟨c, cs, hv, hc⟩ := lead?_text v
  rw [hv]
  intro h
  obtain rfl := (List.cons.inj h).1
  rw [hstop] at hc
  cases hc

/-- What holds of a value if it holds of its items and members holds of all values. -/
theorem ind {P : Json → Prop} (bool : ∀ b, P (.bool b)) (number : ∀ n, P (.number n))
    (string : ∀ s, P (.string s)) (array : ∀ vs, (∀ v ∈ vs, P v) → P (.array vs))
    (object : ∀ ms : List (String × Json), (∀ m ∈ ms, P m.2) → P (.object ms)) : ∀ v, P v
  | .bool b => bool b
  | .number n => number n
  | .string s => string s
  | .array vs => array vs fun v _ => ind bool number string array object v
  | .object ms => object ms fun m _ => ind bool number string array object m.2
decreasing_by
  · have hlt := List.sizeOf_lt_of_mem ‹v ∈ vs›
    simp only [Json.array.sizeOf_spec]
    omega
  · have hlt := List.sizeOf_lt_of_mem ‹m ∈ ms›
    obtain ⟨key, v⟩ := m
    simp only [Json.object.sizeOf_spec, Prod.mk.sizeOf_spec] at hlt ⊢
    omega

theorem separable_member {m : String × Json} (h : Separable text m.2) : Separable memberText m := by
  rintro ⟨key, v⟩ xs ys hxs hys hm
  unfold memberText at hm
  rw [List.append_assoc, List.append_assoc] at hm
  obtain ⟨hkey, hrest⟩ := quote_append_inj hm
  obtain ⟨hv, hrest⟩ := h v xs ys hxs hys (List.cons.inj hrest).2
  exact ⟨Prod.ext hkey hv, hrest⟩

/-- The text of a value tells the value, and where it ends. -/
theorem separable_text (v : Json) : Separable text v := by
  induction v using ind with
  | bool b =>
    intro w xs ys _ _ h
    have hkind := kind_eq_of_text h
    cases w with
    | bool b' =>
      cases b <;> cases b' <;> simp_all [text, render]
    | _ => cases hkind
  | number n =>
    intro w xs ys hxs hys h
    have hkind := kind_eq_of_text h
    cases w with
    | number n' =>
      rw [text_number, text_number] at h
      obtain ⟨rfl, hrest⟩ := toDigits_append_cancel hxs hys h
      exact ⟨rfl, hrest⟩
    | _ => cases hkind
  | string s =>
    intro w xs ys _ _ h
    have hkind := kind_eq_of_text h
    cases w with
    | string s' =>
      rw [text_string, text_string] at h
      obtain ⟨rfl, hrest⟩ := quote_append_inj h
      exact ⟨rfl, hrest⟩
    | _ => cases hkind
  | array vs ih =>
    intro w xs ys _ _ h
    have hkind := kind_eq_of_text h
    cases w with
    | array ws =>
      simp only [text_array, List.cons_append, List.append_assoc, List.cons.injEq, true_and] at h
      obtain ⟨rfl, hrest⟩ :=
        separated_append_inj (by decide) (by decide) (text_append_ne (by decide)) ih h
      exact ⟨rfl, hrest⟩
    | _ => cases hkind
  | object ms ih =>
    intro w xs ys _ _ h
    have hkind := kind_eq_of_text h
    cases w with
    | object ns =>
      simp only [text_object, List.cons_append, List.append_assoc, List.cons.injEq, true_and] at h
      have hfirst : ∀ (m : String × Json) (xs ys : List Char),
          memberText m ++ xs ≠ '\x7d' :: ys := by
        intro m xs ys hm
        unfold memberText at hm
        rw [toList_quote] at hm
        exact absurd (List.cons.inj hm).1 (by decide)
      obtain ⟨rfl, hrest⟩ := separated_append_inj (by decide) (by decide) hfirst
        (fun m hm => separable_member (ih m hm)) h
      exact ⟨rfl, hrest⟩
    | _ => cases hkind

theorem render_inj {v w : Json} : render v = render w ↔ v = w := by
  refine ⟨fun h => ?_, congrArg render⟩
  have htext : text v ++ [] = text w ++ [] := by
    unfold text
    rw [h]
  exact (separable_text v w [] [] noDigitAhead_nil noDigitAhead_nil htext).1

end WireTypes.Json
