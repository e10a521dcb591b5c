import Mathlib.Data.List.Nodup
import TensorGraph.Proofs.Operator.Rebuilding
import TensorGraph.Proofs.Text

/-!
# Texts tell shapes and operators apart

The text of a shape shows its element type, its lengths and its strides, and that of an operator its name and
all of its attributes, so two of them print alike only if they are the same. Two attributes are left out
under some circumstances, the padding mode of a convolution and the axis of arithmetic; there is no text
then that they could be mistaken for.

* `Shape.readable_text` -- the text of a shape says which shape it is;
* `Convolution.attributes_inj`, `Pooling.attributes_inj`, `Binary.attributes_inj` -- attributes that print
  alike are the same;
* `Operator.representative`, `Operator.representative_eq` -- the name of an operator says which one it is but
  for the attributes;
* `Operator.texts_tell_apart` -- both, for all shapes and all operators.
-/

namespace TensorGraph

open Text

/-- What stands between two attributes, or two parts of a shape, starts with a comma. -/
theorem Text.marked_comma {s : String} (h : s.toList.head? = some ',') : Marked s :=
  ⟨',', by decide, h⟩

/-- Names are readable if what they name can be found under them. -/
theorem Text.readable_names {α : Type} {name : α → String} {find? : String → Option α}
    (hplain : ∀ a, Plain (name a)) (hfind : ∀ a, find? (name a) = some a) : Readable name :=
  readable_of_plain hplain fun a b h => Option.some.inj ((hfind a).symm.trans (h ▸ hfind b))

/-! ## 1. Shapes -/

theorem ElementType.plain_name (t : ElementType) : Plain t.name := by
  cases t <;> decide

theorem ElementType.readable_name : Readable ElementType.name := readable_names plain_name ofName?_name

namespace Shape

/-- **The text of a shape says which shape it is.** -/
theorem readable_text : Readable Shape.text := by
  have hcomma : Marked ", " := marked_comma rfl
  have hparts := (ElementType.readable_name.beside hcomma readable_bracedNats).beside hcomma
    readable_bracedNats
  refine hparts.comp (f := fun s : Shape => ((s.elementType, s.lengths), s.strides)) fun s t h => ?_
  obtain ⟨hfront, hstrides⟩ := Prod.mk.inj h
  obtain ⟨htype, hlengths⟩ := Prod.mk.inj hfront
  exact eq_of_parts htype hlengths hstrides

/-- The text of a shape starts with the name of its element type. -/
theorem not_closed_text (s : Shape) (r : List Char) : ¬ Closed (s.text.toList ++ r) := by
  have hne : s.elementType.name ≠ "" := by
    cases s.elementType <;> decide
  unfold text
  simp only [String.toList_append, List.append_assoc]
  exact not_closed_of_plain s.elementType.plain_name hne _

end Shape

/-! ## 2. Attributes -/

theorem Planar.readable_text : Readable Planar.text := by
  refine readable_bracedNats.comp fun p q h => ?_
  cases p
  cases q
  cases h
  rfl

theorem PoolingMode.readable_name : Readable PoolingMode.name :=
  readable_names (fun m => by cases m <;> decide) ofName?_name

theorem ActivationMode.readable_name : Readable ActivationMode.name :=
  readable_names (fun m => by cases m <;> decide) ofName?_name

namespace Convolution

/-- How the padding mode ends the attributes of a convolution. -/
def modeText (mode : PaddingMode) : String :=
  if mode = .explicit then "" else ", padding_mode=" ++ mode.name

theorem closed_modeText (mode : PaddingMode) : Closed (modeText mode).toList := by
  cases mode with
  | explicit => exact closed_nil
  | same => exact closed_cons (by decide)
  | valid => exact closed_cons (by decide)

theorem modeText_inj {mode mode' : PaddingMode} (h : modeText mode = modeText mode') :
    mode = mode' := by
  cases mode <;> cases mode' <;> first | rfl | exact absurd h (by decide)

/-- **Convolutions whose attributes print alike are the same.** -/
theorem attributes_inj {c c' : Convolution} (h : c.attributes = c'.attributes) : c = c' := by
  have hstride : Marked ", stride=" := marked_comma rfl
  have hdilation : Marked ", dilation=" := marked_comma rfl
  have hfront := ((Planar.readable_text.after "padding=").beside hstride Planar.readable_text).beside
    hdilation Planar.readable_text
  -- what the padding mode adds is nothing, or starts with a comma
  have hlist := congrArg String.toList h
  rw [show c.attributes = "padding=" ++ c.padding.text ++ ", stride=" ++ c.stride.text ++ ", dilation=" ++
      c.dilation.text ++ modeText c.mode from rfl,
    show c'.attributes = "padding=" ++ c'.padding.text ++ ", stride=" ++ c'.stride.text ++
      ", dilation=" ++ c'.dilation.text ++ modeText c'.mode from rfl,
    String.toList_append, String.toList_append (t := modeText c'.mode)] at hlist
  obtain ⟨hpairs, hmode⟩ := hfront ((c.padding, c.stride), c.dilation)
    ((c'.padding, c'.stride), c'.dilation) _ _ (closed_modeText _) (closed_modeText _) hlist
  obtain ⟨hpair, hdilations⟩ := Prod.mk.inj hpairs
  obtain ⟨hpaddings, hstrides⟩ := Prod.mk.inj hpair
  cases c
  cases c'
  rw [Convolution.mk.injEq]
  exact ⟨hpaddings, hstrides, hdilations, modeText_inj (String.toList_inj.mp hmode)⟩

end Convolution

/-- **Poolings whose attributes print alike are the same.** -/
theorem Pooling.attributes_inj {p p' : Pooling} (h : p.attributes = p'.attributes) : p = p' := by
  have hpadding : Marked ", padding=" := marked_comma rfl
  have hstride : Marked ", stride=" := marked_comma rfl
  have hlengths : Marked ", lengths=" := marked_comma rfl
  have hall := (((PoolingMode.readable_name.after "mode=").beside hpadding Planar.readable_text).beside
    hstride Planar.readable_text).beside hlengths Planar.readable_text
  have hparts : (((p.mode, p.padding), p.stride), p.window) =
      (((p'.mode, p'.padding), p'.stride), p'.window) := hall.inj h
  cases p
  cases p'
  cases hparts
  rfl

/-- **Axes that print alike are the same**, also where there is none. -/
theorem Binary.attributes_inj {b b' : Binary} (ha : b.arithmetic = b'.arithmetic)
    (h : b.attributes = b'.attributes) : b = b' := by
  have hsome : ∀ n : Nat, "broadcast=" ++ n.repr ≠ "" := by
    intro n hn
    have hlist := congrArg String.toList hn
    rw [String.toList_append] at hlist
    cases hlist
  have haxis : b.axis = b'.axis := by
    unfold attributes at h
    cases hx : b.axis with
    | none =>
      cases hy : b'.axis with
      | none => rfl
      | some n =>
        rw [hx, hy] at h
        exact absurd h.symm (hsome n)
    | some k =>
      cases hy : b'.axis with
      | none =>
        rw [hx, hy] at h
        exact absurd h (hsome k)
      | some n =>
        rw [hx, hy] at h
        exact congrArg some ((readable_nat.after "broadcast=").inj h)
  cases b
  cases b'
  rw [Binary.mk.injEq]
  exact ⟨ha, haxis⟩

/-! ## 3. Names -/

namespace Operator

/-- The operator with attributes that do not depend on its own. -/
def representative : Operator → Operator
  | convolution _ => convolution default
  | pooling _ => pooling default
  | gemm => gemm
  | activation _ => activation default
  | unary f => unary f
  | binary b => binary ⟨b.arithmetic, none⟩
  | transpose _ => transpose []
  | contiguous => contiguous
  | reshape _ => reshape []
  | broadcast _ => broadcast 0
  | outline _ => outline default

/-- One operator of each name. -/
def representatives : List Operator :=
  [convolution default, pooling default, gemm, activation default, transpose [], contiguous, reshape [],
    broadcast 0, outline default] ++ UnaryFunction.all.map unary ++
    Arithmetic.all.map fun a => binary ⟨a, none⟩

theorem representative_mem (o : Operator) : o.representative ∈ representatives := by
  cases o with
  | unary f => cases f <;> decide
  | binary b =>
    show binary ⟨b.arithmetic, none⟩ ∈ representatives
    cases b.arithmetic <;> decide
  | _ => simp [representative, representatives]

theorem name_representative (o : Operator) : o.representative.name = o.name := by
  cases o <;> rfl

theorem plain_name (o : Operator) : Plain o.name := by
  have hall : ∀ p ∈ representatives, Plain p.name := by decide
  rw [← o.name_representative]
  exact hall _ o.representative_mem

/-- **The name of an operator says which one it is but for the attributes.** -/
theorem representative_eq {o o' : Operator} (h : o.name = o'.name) :
    o.representative = o'.representative := by
  have hnames : (representatives.map name).Nodup := by decide
  refine List.inj_on_of_nodup_map hnames o.representative_mem o'.representative_mem ?_
  rw [o.name_representative, o'.name_representative, h]

/-! ## 4. Operators -/

/-- **Operators of one name whose attributes print alike are the same.** -/
theorem eq_of_name_attributes {o o' : Operator} (hname : o.name = o'.name)
    (h : o.attributes = o'.attributes) : o = o' := by
  have hsame := representative_eq hname
  cases o with
  | convolution c =>
    cases o' with
    | convolution c' => exact congrArg convolution (Convolution.attributes_inj h)
    | _ => cases hsame
  | pooling p =>
    cases o' with
    | pooling p' => exact congrArg pooling (Pooling.attributes_inj h)
    | _ => cases hsame
  | gemm =>
    cases o' <;> cases hsame
    rfl
  | activation mode =>
    cases o' with
    | activation mode' =>
      exact congrArg activation ((ActivationMode.readable_name.after "mode=").inj h)
    | _ => cases hsame
  | unary f =>
    cases o' <;> cases hsame
    rfl
  | binary b =>
    cases o' with
    | binary b' =>
      have harithmetic : b.arithmetic = b'.arithmetic :=
        (Binary.mk.inj (Operator.binary.inj hsame)).1
      exact congrArg binary (Binary.attributes_inj harithmetic h)
    | _ => cases hsame
  | transpose dims =>
    cases o' with
    | transpose dims' => exact congrArg transpose ((readable_bracedNats.after "dims=").inj h)
    | _ => cases hsame
  | contiguous =>
    cases o' <;> cases hsame
    rfl
  | reshape dims =>
    cases o' with
    | reshape dims' => exact congrArg reshape ((readable_bracedInts.after "dims=").inj h)
    | _ => cases hsame
  | broadcast axis =>
    cases o' with
    | broadcast axis' => exact congrArg broadcast ((readable_nat.after "axis=").inj h)
    | _ => cases hsame
  | outline shape =>
    cases o' with
    | outline shape' =>
      have hbraced := readable_braced Shape.readable_text Shape.not_closed_text
      have hshapes : [shape] = [shape'] := (hbraced.after "shape=").inj h
      exact congrArg outline (List.cons.inj hshapes).1
    | _ => cases hsame

/-- What follows the name in the text of an operator. -/
def enclosed (attributes : String) : String :=
  if attributes = "" then "" else "[" ++ attributes ++ "]"

theorem text_eq (o : Operator) : o.text = o.name ++ enclosed o.attributes := by
  unfold text enclosed
  split
  · rw [String.append_empty]
  · simp only [String.append_assoc]

theorem enclosed_of_ne {attributes : String} (h : attributes ≠ "") :
    (enclosed attributes).toList = '[' :: (attributes.toList ++ [']']) := by
  unfold enclosed
  rw [if_neg h, String.toList_append, String.toList_append]
  rfl

theorem closed_enclosed (attributes : String) : Closed (enclosed attributes).toList := by
  by_cases h : attributes = ""
  · rw [h]
    exact closed_nil
  · rw [enclosed_of_ne h]
    exact closed_cons (by decide)

theorem enclosed_inj {a a' : String} (h : (enclosed a).toList = (enclosed a').toList) : a = a' := by
  by_cases ha : a = ""
  · by_cases ha' : a' = ""
    · rw [ha, ha']
    · rw [ha, enclosed_of_ne ha'] at h
      cases h
  · by_cases ha' : a' = ""
    · rw [ha', enclosed_of_ne ha] at h
      cases h
    · rw [enclosed_of_ne ha, enclosed_of_ne ha'] at h
      exact String.toList_inj.mp (List.append_cancel_right (List.cons.inj h).2)

/-- **Operators that print alike are the same.** -/
theorem text_inj {o o' : Operator} (h : o.text = o'.text) : o = o' := by
  rw [o.text_eq, o'.text_eq] at h
  have hlist := congrArg String.toList h
  rw [String.toList_append, String.toList_append] at hlist
  obtain ⟨hname, hattributes⟩ := split_plain o.plain_name o'.plain_name (closed_enclosed _)
    (closed_enclosed _) hlist
  exact eq_of_name_attributes (String.toList_inj.mp hname) (enclosed_inj hattributes)

/-- **Texts tell shapes and operators apart.** Two shapes have the same text exactly if they are the same
    shape, and two operators, whatever their names and attributes, exactly if they are equal. -/
theorem texts_tell_apart :
    (∀ s t : Shape, s.text = t.text ↔ s = t) ∧
      ∀ o o' : Operator, o.text = o'.text ↔ (o == o') = true := by
  refine ⟨fun s t => ⟨Shape.readable_text.inj, congrArg Shape.text⟩, fun o o' => ?_⟩
  rw [beq_iff_eq]
  exact ⟨text_inj, congrArg Operator.text⟩

end Operator

end TensorGraph
