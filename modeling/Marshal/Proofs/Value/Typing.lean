import Marshal.Model.Basic
import Marshal.Proofs.Converter.Natives
import Marshal.Proofs.TypeRef.Substitution

/-!
# Values of a type

Which values belong to a type of a model (`Value.HasType`): natives of their kind, lists and maps of values that
belong to the types of their parts, declared constants, and objects of a structure that have all required fields.  No
such value is null.  The fields of an object may have been set in any order; `Value.InOrder` says that it was the one
of declaration.  A declared type of a plain model (`Model.Plain`) is not confused with a type that is known without a
declaration.
-/

namespace Marshal

/-! ### Plain models -/

/-- Every field is encoded by its declared type, fields of one structure differ in their names, and no declaration
takes the path of a known type. -/
structure Model.Plain (model : Model) : Prop where
  converter : ∀ d ∈ model.types, ∀ f ∈ d.fields, f.converter = none
  declared : ∀ d ∈ model.types, ∀ f ∈ d.fields, f.writesRuntimeType = false
  names : ∀ d ∈ model.types, (d.fields.map (·.name)).Nodup
  native : ∀ d ∈ model.types, NativeKind.ofPath? d.path = none
  container : ∀ d ∈ model.types, Instantiator.ofPath? d.path = none
  dynamic : ∀ d ∈ model.types, d.path ≠ TypeRef.anyPath

namespace Model.Plain

variable {model : Model} {d : Declaration}

private theorem native?_eq_none (h : model.Plain) (hd : d ∈ model.types) (args : List TypeRef) :
    (TypeRef.named d.path args).native? = none := by
  cases args with
  | nil => exact h.native d hd
  | cons t ts => rfl

theorem shape_eq_other (h : model.Plain) (hd : d ∈ model.types) (args : List TypeRef) :
    (TypeRef.named d.path args).shape = .other := by
  unfold TypeRef.shape
  rw [h.native?_eq_none hd]
  simp only [h.container d hd]

theorem isAny_eq_false (h : model.Plain) (hd : d ∈ model.types) (args : List TypeRef) :
    (TypeRef.named d.path args).isAny = false := by
  simpa [TypeRef.isAny, TypeRef.path?] using h.dynamic d hd

end Model.Plain

theorem TypeRef.shape_of_isAny {ty : TypeRef} (h : ty.isAny = true) : ty.shape = .other := by
  cases ty with
  | named path args =>
    obtain rfl : path = anyPath := by simpa [isAny, path?] using h
    cases args <;> rfl
  | array element => cases h
  | var name => rfl

/-! ### Typing -/

namespace Value

/-- A value belongs to a type. -/
inductive HasType (model : Model) : TypeRef → Value → Prop
  | native {ty : TypeRef} {kind : NativeKind} {v : Value} (hty : ty.native? = some kind) (hv : kind.Carries v) :
    HasType model ty v
  | list {ty element : TypeRef} {i : Instantiator} {items : List Value} (hty : ty.shape = .list element i)
    (hitems : ∀ item ∈ items, HasType model element item) : HasType model ty (.list items)
  | map {ty key value : TypeRef} {i : Instantiator} {entries : List (Value × Value)}
    (hty : ty.shape = .map key value i)
    (hkeys : ∀ e ∈ entries, HasType model key e.1) (hvalues : ∀ e ∈ entries, HasType model value e.2)
    (hnodup : (entries.map (·.1.display)).Nodup) : HasType model ty (.map entries)
  | enum {d : Declaration} {constants : List Constant} {constant : String} (hd : d ∈ model.types)
    (hkind : d.kind = .enumeration constants) (hparams : d.params = []) (hc : constant ∈ constants.map (·.name)) :
    HasType model (.named d.path []) (.enum (.named d.path []) constant)
  /-- Only declared fields are set, each once.  A field may be absent unless it is required. -/
  | object {d : Declaration} {args : List TypeRef} {fields : List Field} {values : Fields} (hd : d ∈ model.types)
    (hkind : d.kind = .structure fields) (hargs : args.length = d.params.length)
    (hnodup : (values.map (·.1)).Nodup) (hdeclared : values.map (·.1) ⊆ fields.map (·.name))
    (hrequired : ∀ f ∈ fields, f.isNonNull = true → f.name ∈ values.map (·.1))
    (hvalues : ∀ f ∈ fields, ∀ v, (f.name, v) ∈ values → HasType model (f.ty.substitute d.params args) v) :
    HasType model (.named d.path args) (.object (.named d.path args) values)

/-- The fields of every object in the value were set in the order in which its structure declares them. -/
def InOrder (model : Model) (v : Value) : Prop := ∀ ty values, (object ty values).Inside v →
  ∀ d ∈ model.types, ty.path? = some d.path → (values.map (·.1)).Sublist (d.fields.map (·.name))

theorem InOrder.of_inside {model : Model} {u v : Value} (h : v.InOrder model) (hu : u.Inside v) : u.InOrder model :=
  fun ty values hin => h ty values (hin.trans hu)

namespace HasType

variable {model : Model} {ty : TypeRef} {v : Value}

theorem not_null (h : HasType model ty v) : v.isNull = false := by
  cases h with
  | native _ hv => cases hv <;> rfl
  | _ => rfl

theorem not_any (hplain : model.Plain) (h : HasType model ty v) : ty.isAny = false := by
  by_contra hany
  have hshape : ty.shape = .other := TypeRef.shape_of_isAny (by simpa using hany)
  cases h with
  | native hty _ =>
    rw [TypeRef.shape_of_native? hty] at hshape
    cases hshape
  | list hty _ =>
    rw [hty] at hshape
    cases hshape
  | map hty _ _ _ =>
    rw [hty] at hshape
    cases hshape
  | enum hd _ _ _ => exact hany (hplain.isAny_eq_false hd [])
  | @object d args _ _ hd _ _ _ _ _ _ => exact hany (hplain.isAny_eq_false hd args)

/-- What belongs to a native type is a value of its kind. -/
theorem carries (hplain : model.Plain) (h : HasType model ty v) {kind : NativeKind} (hty : ty.native? = some kind) :
    kind.Carries v := by
  have hshape := TypeRef.shape_of_native? hty
  cases h with
  | native hty' hv =>
    obtain rfl := Option.some.inj (hty.symm.trans hty')
    exact hv
  | list hty' _ =>
    rw [hty'] at hshape
    cases hshape
  | map hty' _ _ _ =>
    rw [hty'] at hshape
    cases hshape
  | enum hd _ _ _ =>
    rw [hplain.native?_eq_none hd] at hty
    cases hty
  | object hd _ _ _ _ _ _ =>
    rw [hplain.native?_eq_none hd] at hty
    cases hty

end HasType

end Value

end Marshal
