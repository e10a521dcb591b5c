import Mathlib
import TensorGraph.Text

/-!
# Texts that can be read back

A text that is put together of numbers, names and lists says which ones, as long as it is clear where each of
them ends. Numbers and names have no marks in them, the commas and brackets that stand between; so they end
where the next mark stands, and lists end with a mark of their own.

* `Plain` -- a text without marks;
* `Closed` -- what can follow a number or a name: nothing, or something that starts with a mark;
* `Readable` -- a way to write whose text says what was written, also with something that follows it;
* `readable_of_plain`, `readable_nat`, `readable_int` -- names and numbers are readable;
* `Readable.after`, `Readable.beside` -- so are texts with a fixed text in front, and two texts with a mark
  between them;
* `readable_braced` -- and lists of what is readable.

It is texts as lists of characters that are taken apart.
-/

namespace TensorGraph.Text

/-! ## 1. Marks -/

/-- The characters at which numbers and names end. -/
def marks : List Char := [',', '[', ']', '\x7d']

/-- The text has no mark. -/
def Plain (s : String) : Prop := ∀ c ∈ s.toList, c ∉ marks

instance (s : String) : Decidable (Plain s) := List.decidableBAll (fun c => c ∉ marks) s.toList

/-- There is nothing, or something that starts with a mark. -/
def Closed (r : List Char) : Prop := ∀ c ∈ r.head?, c ∈ marks

theorem closed_nil : Closed [] := nofun

theorem closed_cons {c : Char} {r : List Char} (h : c ∈ marks) : Closed (c :: r) := by
  intro d hd
  cases hd
  exact h

/-- A text that starts with a mark. -/
def Marked (s : String) : Prop := ∃ c ∈ marks, s.toList.head? = some c

theorem Marked.closed {s : String} (h : Marked s) (r : List Char) : Closed (s.toList ++ r) := by
  obtain ⟨c, hc, hs⟩ := h
  obtain ⟨rest, hrest⟩ := List.head?_eq_some_iff.mp hs
  rw [hrest, List.cons_append]
  exact closed_cons hc

/-- A text without marks that is not empty starts with no mark. -/
theorem not_closed_of_plain {s : String} (h : Plain s) (hne : s ≠ "") (r : List Char) :
    ¬ Closed (s.toList ++ r) := by
  intro hclosed
  cases hs : s.toList with
  | nil => exact hne (String.toList_inj.mp hs)
  | cons c rest =>
    rw [hs] at hclosed
    exact h c (hs ▸ List.mem_cons_self) (hclosed c rfl)

/-- **A text without marks ends where the next mark stands.** -/
theorem split_plain {s t r r' : List Char} (hs : ∀ c ∈ s, c ∉ marks) (ht : ∀ c ∈ t, c ∉ marks)
    (hr : Closed r) (hr' : Closed r') (h : s ++ r = t ++ r') : s = t ∧ r = r' := by
  induction s generalizing t with
  | nil =>
    cases t with
    | nil => exact ⟨rfl, h⟩
    | cons d t =>
      have hd : d ∈ marks := hr d (by rw [show r = d :: t ++ r' from h]; rfl)
      exact absurd hd (ht d List.mem_cons_self)
  | cons c s ih =>
    cases t with
    | nil =>
      have hc : c ∈ marks := hr' c (by rw [← show c :: s ++ r = r' from h]; rfl)
      exact absurd hc (hs c List.mem_cons_self)
    | cons d t =>
      obtain ⟨rfl, htail⟩ := List.cons.inj h
      obtain ⟨rfl, hrest⟩ := ih (fun e he => hs e (List.mem_cons_of_mem c he))
        (fun e he => ht e (List.mem_cons_of_mem c he)) htail
      exact ⟨rfl, hrest⟩

/-! ## 2. What can be read back -/

/-- The text says what was written, and where it ends, whatever follows it. -/
def Readable {α : Type} (write : α → String) : Prop :=
  ∀ a b r r', Closed r → Closed r' → (write a).toList ++ r = (write b).toList ++ r' → a = b ∧ r = r'

section Readable

variable {α β : Type} {write : α → String} {write' : β → String}

/-- **A readable text says what was written.** -/
theorem Readable.inj (h : Readable write) {a b : α} (hab : write a = write b) : a = b :=
  (h a b [] [] closed_nil closed_nil (by rw [hab])).1

/-- What is written under other names is as readable. -/
theorem Readable.comp (h : Readable write) {f : β → α} (hf : ∀ a b, f a = f b → a = b) :
    Readable fun b => write (f b) := by
  intro a b r r' hr hr' hab
  obtain ⟨he, hrest⟩ := h _ _ r r' hr hr' hab
  exact ⟨hf a b he, hrest⟩

theorem readable_of_plain (hplain : ∀ a, Plain (write a)) (hinj : ∀ a b, write a = write b → a = b) :
    Readable write := by
  intro a b r r' hr hr' hab
  obtain ⟨hs, hrest⟩ := split_plain (hplain a) (hplain b) hr hr' hab
  exact ⟨hinj a b (String.toList_inj.mp hs), hrest⟩

/-- **A fixed text can stand in front.** -/
theorem Readable.after (h : Readable write) (front : String) : Readable fun a => front ++ write a := by
  intro a b r r' hr hr' hab
  rw [String.toList_append, String.toList_append, List.append_assoc, List.append_assoc] at hab
  exact h a b r r' hr hr' (List.append_cancel_left hab)

/-- **Two texts can stand beside each other**, if what stands between them starts with a mark. -/
theorem Readable.beside (h : Readable write) {between : String} (hm : Marked between)
    (h' : Readable write') : Readable fun p : α × β => write p.1 ++ between ++ write' p.2 := by
  intro p q r r' hr hr' hpq
  simp only [String.toList_append, List.append_assoc] at hpq
  obtain ⟨hfst, hrest⟩ := h p.1 q.1 _ _ (hm.closed _) (hm.closed _) hpq
  obtain ⟨hsnd, hend⟩ := h' p.2 q.2 r r' hr hr' (List.append_cancel_left hrest)
  exact ⟨Prod.ext hfst hsnd, hend⟩

/-! ## 3. Lists -/

/-- What follows an item of a list: the next ones after a comma, or the closing brace. -/
def following (items : List String) (r : List Char) : List Char :=
  match items with
  | [] => '\x7d' :: r
  | items => ',' :: ' ' :: ((separated ", " items).toList ++ '\x7d' :: r)

theorem closed_following (items : List String) (r : List Char) : Closed (following items r) := by
  cases items with
  | nil => exact closed_cons (by decide)
  | cons item rest => exact closed_cons (by decide)

theorem toList_separated_cons (item : String) (rest : List String) (r : List Char) :
    (separated ", " (item :: rest)).toList ++ '\x7d' :: r = item.toList ++ following rest r := by
  cases rest with
  | nil => rfl
  | cons next rest =>
    show (item ++ ", " ++ separated ", " (next :: rest)).toList ++ _ = _
    rw [String.toList_append, String.toList_append, List.append_assoc, List.append_assoc]
    rfl

/-- **The items between a brace and its closing one can be read back.** -/
theorem read_separated (h : Readable write) (hstart : ∀ a r, ¬ Closed ((write a).toList ++ r))
    {items items' : List α} {r r' : List Char}
    (he : (separated ", " (items.map write)).toList ++ '\x7d' :: r =
      (separated ", " (items'.map write)).toList ++ '\x7d' :: r') : items = items' ∧ r = r' := by
  have hbrace : ∀ r : List Char, Closed ('\x7d' :: r) := fun r => closed_cons (by decide)
  induction items generalizing items' with
  | nil =>
    cases items' with
    | nil => exact ⟨rfl, List.cons.inj he |>.2⟩
    | cons b rest =>
      rw [List.map_cons, toList_separated_cons] at he
      refine absurd ?_ (hstart b (following (rest.map write) r'))
      rw [← he]
      exact hbrace r
  | cons a rest ih =>
    rw [List.map_cons, toList_separated_cons] at he
    cases items' with
    | nil =>
      refine absurd ?_ (hstart a (following (rest.map write) r))
      rw [he]
      exact hbrace r'
    | cons b rest' =>
      rw [List.map_cons, toList_separated_cons] at he
      obtain ⟨rfl, hrest⟩ := h a b _ _ (closed_following _ r) (closed_following _ r') he
      -- what follows says whether there is a next item
      cases rest with
      | nil =>
        cases rest' with
        | nil => exact ⟨rfl, (List.cons.inj hrest).2⟩
        | cons d rest' => exact absurd (List.cons.inj hrest).1 (by decide)
      | cons c rest =>
        cases rest' with
        | nil => exact absurd (List.cons.inj hrest).1 (by decide)
        | cons d rest' =>
          obtain ⟨hitems, hr⟩ := ih (List.cons.inj (List.cons.inj hrest).2).2
          exact ⟨congrArg (a :: ·) hitems, hr⟩

/-- **A list between braces is readable** if its items are, and start with no mark. -/
theorem readable_braced (h : Readable write) (hstart : ∀ a r, ¬ Closed ((write a).toList ++ r)) :
    Readable fun items : List α => braced (items.map write) := by
  intro items items' r r' _ _ he
  unfold braced at he
  simp only [String.toList_append, List.append_assoc] at he
  exact read_separated h hstart (List.append_cancel_left he)

end Readable

/-! ## 4. Numbers -/

/-- A character of a number is no mark. -/
theorem not_mark_of_isDigit {c : Char} (h : c.isDigit = true) : c ∉ marks := by
  intro hc
  have hmarks : marks.all (fun d => !d.isDigit) = true := by decide
  have hno := List.all_eq_true.mp hmarks c hc
  rw [h] at hno
  cases hno

theorem plain_nat (n : Nat) : Plain n.repr := by
  intro c hc
  rw [Nat.toList_repr] at hc
  exact not_mark_of_isDigit (Nat.isDigit_of_mem_toDigits (by decide) (by decide) hc)

theorem plain_int (i : Int) : Plain i.repr := by
  rw [Int.repr_eq_if]
  split
  · exact plain_nat _
  · intro c hc
    rw [String.toList_append, List.mem_append] at hc
    rcases hc with hc | hc
    · exact (by decide : Plain "-") c hc
    · exact plain_nat _ c hc

theorem int_repr_ne_empty (i : Int) : i.repr ≠ "" := by
  rw [Int.repr_eq_if]
  split
  · exact Nat.repr_ne_empty
  · intro h
    have hlist := congrArg String.toList h
    rw [String.toList_append] at hlist
    cases hlist

theorem readable_nat : Readable Nat.repr :=
  readable_of_plain plain_nat fun _ _ h => Nat.repr_inj.mp h

theorem readable_bracedNats : Readable bracedNats :=
  readable_braced readable_nat fun n => not_closed_of_plain (plain_nat n) Nat.repr_ne_empty

theorem readable_bracedInts : Readable fun values : List Int => braced (values.map Int.repr) :=
  readable_braced (readable_of_plain plain_int fun _ _ h => Int.repr_inj.mp h) fun i =>
    not_closed_of_plain (plain_int i) (int_repr_ne_empty i)

end TensorGraph.Text
