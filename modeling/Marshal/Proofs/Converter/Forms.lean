import Mathlib.Data.List.Forall2
import Marshal.Proofs.Converter.Following
import Marshal.Proofs.Lists

/-!
# Converters of one form

Two converters that are built alike read and write alike if their bindings do, whatever relation `A` it is that ties
the bindings of the one to those of the other.
-/

namespace Marshal

open Effect
open WriteM (token)

namespace Converter

variable {A : Converter → Converter → Prop}

/-- Two converters of one form, neither of them a placeholder, whose bindings are related by `A`. -/
inductive Form (A : Converter → Converter → Prop) : Converter → Converter → Prop
  | native (id id' : Nat) (kind : NativeKind) : Form A (.native id kind) (.native id' kind)
  | dynamic (id id' : Nat) (linked : Bool) : Form A (.dynamic id linked) (.dynamic id' linked)
  | enum (id id' : Nat) (a : EnumAdapter) : Form A (.enum id a) (.enum id' a)
  | codec (id id' : Nat) (c : Codec) {bs bs' : List Converter} (h : List.Forall₂ A bs bs') :
    Form A (.codec id c bs) (.codec id' c bs')
  | struct (id id' : Nat) {a a' : StructAdapter} (hwrite : a.write = a'.write) (hread : a.read = a'.read)
    (target : TypeRef) {bs bs' : List Converter} (linked : Bool) (h : List.Forall₂ A bs bs') :
    Form A (.struct id a target bs linked) (.struct id' a' target bs' linked)
  | custom (id id' : Nat) (x : Custom) : Form A (.custom id x) (.custom id' x)

/-! ### Reading -/

section Reading

variable {ds ds' : Delegates} {fuel : Nat} (ih : ∀ c c', A c c' → ReadFollows (c.read ds fuel) fun k => c'.read ds' k)

include ih

private theorem follows_callBinding {bs bs' : List Converter} (h : List.Forall₂ A bs bs') (i : Nat) :
    ReadFollows (callBinding (read ds fuel) bs i) fun k => callBinding (read ds' k) bs' i := by
  unfold callBinding
  rcases forall₂_getElem? h i with ⟨hb, hb'⟩ | ⟨b, b', hb, hb', hbb⟩
  · simp only [hb, hb', h.length_eq]
    exact .refl _
  · simp only [hb, hb']
    exact ih b b' hbb

theorem Form.follows_read {c c' : Converter} (h : Form A c c') :
    ReadFollows (c.read ds (fuel + 1)) fun k => c'.read ds' (k + 1) := by
  cases h with
  | native | dynamic | enum | custom => exact .refl _
  | codec id id' k hbs => exact (Codec.Renumbered.refl k).follows_readWith fun i _ hij =>
    hij ▸ follows_callBinding ih hbs i
  | @struct id id' a _ _ hread target _ _ linked hbs =>
    simp only [read, ← hread]
    exact (ReadProcedure.Like.refl a.read).follows_read (fun i _ hij => hij ▸ follows_callBinding ih hbs i) target

end Reading

/-! ### Writing -/

section Writing

variable {S : Store → Store → Prop} {reg reg' : Registry} {fuel : Nat}
  (ih : ∀ c c', A c c' → ∀ v, WriteFollows S (c.write reg fuel v) fun k => c'.write reg' k v)

include ih

private theorem follows_writeBinding {bs bs' : List Converter} (h : List.Forall₂ A bs bs') (i : Nat)
    (v : Option Value) :
    WriteFollows S (writeBinding (write reg fuel) bs i v) fun k => writeBinding (write reg' k) bs' i v := by
  unfold writeBinding
  rcases forall₂_getElem? h i with ⟨hb, hb'⟩ | ⟨b, b', hb, hb', hbb⟩
  · simp only [hb, hb', h.length_eq]
    exact .throw _
  · simp only [hb, hb']
    exact ih b b' hbb v

variable (hresolved : ∀ ty v, WriteFollows S (writeResolved reg fuel (write reg fuel) ty v) fun k =>
  writeResolved reg' k (write reg' k) ty v)

include hresolved

omit ih in
theorem follows_typed (linked : Bool) :
    TypedFollows S (if linked then some (writeResolved reg fuel (write reg fuel)) else none) fun k =>
      if linked then some (writeResolved reg' k (write reg' k)) else none := by
  cases linked with
  | false => exact .none
  | true => exact .some hresolved

theorem Form.follows_write {c c' : Converter} (h : Form A c c') (v : Option Value) :
    WriteFollows S (c.write reg (fuel + 1) v) fun k => c'.write reg' (k + 1) v := by
  cases h with
  | native id id' kind => exact follows_native kind v
  | dynamic id id' linked =>
    simp only [write]
    cases Value.present? v with
    | none => exact .token _
    | some v => exact follows_writeAny (follows_typed hresolved linked) v
  | enum id id' a => exact follows_enum a v
  | codec id id' k hbs =>
    exact (Codec.Renumbered.refl k).follows_writeWith .none (fun i _ hij => hij ▸ follows_writeBinding ih hbs i) v
  | @struct id id' a a' hwrite _ target bs bs' linked hbs =>
    have hops : List.Forall₂ (WriteOp.Like Eq) a.write a'.write := hwrite ▸ List.forall₂_same.2 fun op _ => .refl op
    exact StructAdapter.follows_writeInstance (follows_typed hresolved linked)
      (fun i _ hij => hij ▸ follows_writeBinding ih hbs i) hops target v
  | custom id id' x => exact .token _

end Writing

end Converter

end Marshal
