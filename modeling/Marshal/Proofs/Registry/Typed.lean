import Marshal.Proofs.Converter.Framing
import Marshal.Proofs.Registry.Planned

/-!
# The types of the values that are read

A value that a converter of a module reads bears a type.  The instances of a structure bear the type that the
converter was resolved for, with the dynamic type for each argument that it was used without (`read_structure`).  The
constants of an enumeration bear the declared type whatever the arguments are (`read_enumeration`), which is the type
that was asked for only if the enumeration has no parameters.
-/

namespace Marshal

open Effect

/-- The declared type for the arguments; if there are none, the dynamic type stands for each. -/
def Declaration.applied (d : Declaration) (args : List TypeRef) : TypeRef :=
  .named d.path (if args.isEmpty then List.replicate d.params.length .any else args)

private theorem areConcrete_replicate_any (n : Nat) : TypeRef.areConcrete (List.replicate n .any) = true := by
  induction n with
  | zero => rfl
  | succ n ih =>
    rw [List.replicate_succ, TypeRef.areConcrete, ih]
    rfl

private theorem Declaration.isConcrete_applied (d : Declaration) {args : List TypeRef}
    (h : TypeRef.areConcrete args = true) : (d.applied args).isConcrete = true := by
  rw [applied, TypeRef.isConcrete]
  split
  · exact areConcrete_replicate_any _
  · exact h

/-- An adapter is constructed for the declared type with all its arguments. -/
private theorem Source.Applies.eq_applied {accessor : Accessor} {d : Declaration} {a : Adapter}
    (ha : a.Serves accessor d) {args args' : List TypeRef} (h : Applies (.named d.path args) a args') :
    .named d.path args' = d.applied args := by
  obtain ⟨hlen, happlies⟩ := h
  rw [ha.length_args] at hlen happlies
  rw [Declaration.applied]
  rcases happlies with heq | ⟨hnil, rfl⟩
  · obtain rfl : args' = args := heq
    cases args' with
    | nil =>
      rw [← hlen]
      rfl
    | cons t ts => rfl
  · obtain rfl : args = [] := hnil
    rfl

/-- Without parameters there is only one instance. -/
private theorem Declaration.applied_eq_selfType {d : Declaration} (hparams : d.params = []) {args : List TypeRef}
    (hargs : args = [] ∨ args.length = d.params.length) : d.applied args = d.selfType := by
  have hnil : args = [] := by
    rcases hargs with h | h
    · exact h
    · rw [hparams] at h
      exact List.eq_nil_of_length_eq_zero h
  simp [applied, selfType, hparams, hnil]

/-! ### What is read -/

private theorem Reader.skipMismatched_ok {found : TokenKind} {r r' : Reader} {v : Option Value}
    (h : skipMismatched found r = .ok v r') : v = none := by
  unfold skipMismatched at h
  split at h
  all_goals
    obtain ⟨_, r₁, -, h⟩ := bind_eq_ok.1 h
    exact (ok_inj.1 h).1.symm

/-- What an adapter of an enumeration reads is a constant of its target. -/
private theorem EnumAdapter.read_ok {a : EnumAdapter} {r r' : Reader} {v : Value} (h : a.read r = .ok (some v) r') :
    ∃ constant, v = .enum a.target constant := by
  obtain ⟨found, r₁, -, h⟩ := bind_eq_ok.1 h
  have hconstant {m : ReadM String}
      (h : (do return (a.constant? (← m)).map (Value.enum a.target)) r₁ = .ok (some v) r') :
      ∃ constant, v = .enum a.target constant := by
    obtain ⟨s, r₂, -, h⟩ := bind_eq_ok.1 h
    obtain ⟨constant, -, hv⟩ := Option.map_eq_some_iff.1 (ok_inj.1 h).1
    exact ⟨constant, hv.symm⟩
  cases found with
  | string | number => exact hconstant h
  | _ => cases Reader.skipMismatched_ok h

/-- Every declared constant has a name on the wire. -/
private theorem exists_serializedName? {d : Declaration} {constants : List Constant}
    (hkind : d.kind = .enumeration constants) {k : Constant} (hk : k ∈ constants) :
    ∃ name, EnumAdapter.serializedName? ⟨d.selfType, d.constants.map fun c => ⟨c.name, c.serializedName⟩⟩ k.name =
      some name := by
  obtain rfl : d.constants = constants := by rw [Declaration.constants, hkind]
  have hmem : k.name ∈ (d.constants.map fun c => (⟨c.name, c.serializedName⟩ : EnumEntry)).map (·.constant) := by
    rw [List.map_map]
    exact List.mem_map_of_mem hk
  exact EnumAdapter.exists_serializedName? hmem

/-- What a read procedure reads is an object of the type that it is run for. -/
private theorem ReadProcedure.read_ok {p : ReadProcedure} {target : TypeRef} {call : Nat → ReadM (Option Value)}
    {r r' : Reader} {v : Value} (h : p.read target call r = .ok (some v) r') :
    ∃ fields, v = .object target fields := by
  obtain ⟨found, r₁, -, h⟩ := bind_eq_ok.1 h
  cases found with
  | beginObject =>
    obtain ⟨_, r₂, -, h⟩ := bind_eq_ok.1 h
    obtain ⟨fields, r₃, -, h⟩ := bind_eq_ok.1 h
    obtain ⟨_, r₄, -, h⟩ := bind_eq_ok.1 h
    cases hm : p.missing? fields with
    | some name =>
      simp only [hm] at h
      cases h
    | none =>
      simp only [hm] at h
      exact ⟨fields, (Option.some.inj (ok_inj.1 h).1).symm⟩
  | _ => cases Reader.skipMismatched_ok h

/-! ### Which constants are written -/

namespace Converter

variable (reg : Registry) (n id : Nat) {a : EnumAdapter} {constant : String}

theorem toJson_enum {name : String} (h : a.serializedName? constant = some name) (t : Store) :
    (enum id a).toJson reg (n + 1) (some (.enum a.target constant)) t =
    .ok ("" ++ String.ofList (Text.quote name.toList)) t := by
  have hwrite : (enum id a).write reg (n + 1) (some (.enum a.target constant)) ⟨.empty, t⟩ =
      .ok ⟨⟩ ⟨⟨"" ++ String.ofList (Text.quote name.toList), true, []⟩, t⟩ := by
    simp only [write, EnumAdapter.write, Value.present?, Value.nonNull?, Option.bind_some, bne_self_eq_false,
      Bool.false_eq_true, if_false, h]
    rfl
  simp only [toJson, hwrite]
  rfl

theorem toJson_enum_of_ne {ty : TypeRef} (h : ty ≠ a.target) (constant : String) (t : Store) :
    (enum id a).toJson reg (n + 1) (some (.enum ty constant)) t =
      .error (.valueMismatch "matching enum" "enum of another type") t := by
  have hwrite : (enum id a).write reg (n + 1) (some (.enum ty constant)) ⟨.empty, t⟩ =
      .error (.valueMismatch "matching enum" "enum of another type") ⟨.empty, t⟩ := by
    have hne : (ty != a.target) = true := bne_iff_ne.2 h
    simp only [write, EnumAdapter.write, Value.present?, Value.nonNull?, Option.bind_some, hne, if_true]
    rfl
  simp only [toJson, hwrite]

end Converter

namespace Registry

variable {ms : List AdapterModule} {att : List (String × Converter)}

/-! ### Converters of declared types -/

section Declared

variable {model : Model} {m : AdapterModule} (hgen : model.Generates m) {before after : List AdapterModule}
  {d : Declaration} (hd : d ∈ model.types) {args : List TypeRef} (hargs : args = [] ∨ args.length = d.params.length)
  (hbefore : ∀ m' ∈ before, Source.dispatch? m' (.named d.path args) = none) {s : Store} {held : List Converter}
  (hrun : Run (ofModules (before ++ m :: after) att) s held) {fuel : Nat} {c : Converter} {s' : Store}
  (hc : (ofModules (before ++ m :: after) att).resolve fuel (.named d.path args) s = .ok c s')

include hgen hd hargs hbefore hrun hc

/-- The converter of a declared type was built by the adapter of the declaration. -/
private theorem adapter_of_resolve (habstract : d.isAbstract = false) :
    ∃ accessor a id cs, Adapter.Serves accessor d a ∧
      ((∃ x, a = .struct x ∧ c = .struct id x (d.applied args) cs x.requirements.needsRegistry) ∨
        ∃ x, a = .enum x ∧ c = .enum id x) := by
  obtain ⟨hs, -⟩ := frame_healthy.of_run ⟨.empty, rfl⟩ hrun
  obtain ⟨p, id, cs, hp, rfl, -⟩ := hs.assembled hc
  obtain ⟨p', hp'⟩ : ∃ p', Source.moduleRecipe? before.length m (.named d.path args) = some p' :=
    hgen.exists_moduleRecipe? hd habstract hargs
  obtain rfl := Option.some.inj (hp.symm.trans (recipe?_of_first hbefore hp'))
  obtain ⟨d', hd', accessor, a, args', hpath, hserves, happlies, hbuilds⟩ := hgen.declared_of_moduleRecipe? hp'
  obtain rfl : d = d' := List.inj_on_of_nodup_map model.paths_nodup hd hd' (Option.some.inj hpath)
  refine ⟨accessor, a, id, cs, hserves, ?_⟩
  rcases hbuilds with ⟨x, rfl, rfl⟩ | ⟨x, i, rfl, rfl⟩
  · refine .inl ⟨x, rfl, ?_⟩
    rw [← happlies.eq_applied hserves]
    rfl
  · exact .inr ⟨x, rfl, rfl⟩

/-- The instances of a structure bear the type that its converter was resolved for. -/
theorem read_structure {fields : List Field} (hkind : d.kind = .structure fields) {ds : Delegates} {n : Nat}
    {text : String} {v : Value} (hv : c.fromJson ds n text = .ok (some v)) : v.runtimeType = d.applied args := by
  have habstract : d.isAbstract = false := by rw [Declaration.isAbstract, hkind]
  obtain ⟨accessor, a, id, cs, hserves, hform⟩ := adapter_of_resolve hgen hd hargs hbefore hrun hc habstract
  cases hserves with
  | enum hk _ =>
    rw [hkind] at hk
    cases hk
  | struct _ _ =>
    rcases hform with ⟨x, -, rfl⟩ | ⟨x, hx, -⟩
    · obtain ⟨r, r', hread, -⟩ := Converter.fromJson_ok hv
      cases n with
      | zero => cases hread
      | succ n =>
        obtain ⟨fs, rfl⟩ := ReadProcedure.read_ok hread
        rfl
    · cases hx

/-- The constants of an enumeration bear the declared type: so they are read, so they are written, and constants of
any other type are refused. -/
theorem read_enumeration {constants : List Constant} (hkind : d.kind = .enumeration constants) :
    (∀ {ds : Delegates} {n : Nat} {text : String} {v : Value}, c.fromJson ds n text = .ok (some v) →
      v.runtimeType = d.selfType) ∧
      (∀ k ∈ constants, ∀ n t, ∃ text, c.toJson (ofModules (before ++ m :: after) att) (n + 1)
        (some (.enum d.selfType k.name)) t = .ok text t) ∧
      ∀ ty constant n t, ty ≠ d.selfType → c.toJson (ofModules (before ++ m :: after) att) (n + 1)
        (some (.enum ty constant)) t = .error (.valueMismatch "matching enum" "enum of another type") t := by
  have habstract : d.isAbstract = false := by rw [Declaration.isAbstract, hkind]
  obtain ⟨accessor, a, id, cs, hserves, hform⟩ := adapter_of_resolve hgen hd hargs hbefore hrun hc habstract
  cases hserves with
  | struct hk _ =>
    rw [hkind] at hk
    cases hk
  | enum _ hx =>
    rcases hform with ⟨x, hx', -⟩ | ⟨x, hx', rfl⟩
    · cases hx'
    cases hx'
    obtain ⟨-, rfl⟩ := Declaration.enumAdapter_ok hx
    refine ⟨fun {ds n text v} hv => ?_, fun k hk n t => ?_, fun ty constant n t hne => ?_⟩
    · obtain ⟨r, r', hread, -⟩ := Converter.fromJson_ok hv
      cases n with
      | zero => cases hread
      | succ n =>
        obtain ⟨constant, rfl⟩ := EnumAdapter.read_ok hread
        rfl
    · obtain ⟨name, hname⟩ := exists_serializedName? hkind hk
      exact ⟨_, Converter.toJson_enum _ n id hname t⟩
    · exact Converter.toJson_enum_of_ne _ n id hne constant t

end Declared

/-- Whatever was resolved before: the values that the converter of a declared type reads bear that type, the dynamic
type in the place of arguments that were left out, and it writes every constant of that type; an enumeration must have
no parameters for that. -/
theorem read_typed {model : Model} {m : AdapterModule} (hgen : model.Generates m) {before after : List AdapterModule}
    {d : Declaration} (hd : d ∈ model.types) (habstract : d.isAbstract = false)
    (hplain : ∀ constants, d.kind = .enumeration constants → d.params = []) {args : List TypeRef}
    (hconcrete : (TypeRef.named d.path args).isConcrete = true) (hargs : args = [] ∨ args.length = d.params.length)
    (hbefore : ∀ m' ∈ before, Source.dispatch? m' (.named d.path args) = none) {s : Store} {held : List Converter}
    (hrun : Run (ofModules (before ++ m :: after) att) s held) {fuel : Nat} {c : Converter} {s' : Store}
    (hc : (ofModules (before ++ m :: after) att).resolve fuel (.named d.path args) s = .ok c s') :
    (d.applied args).isConcrete = true ∧
      (∀ ds n text v, c.fromJson ds n text = .ok (some v) → v.runtimeType = d.applied args) ∧
      ∀ k ∈ d.constants, ∀ n t, ∃ text, c.toJson (ofModules (before ++ m :: after) att) (n + 1)
        (some (.enum (d.applied args) k.name)) t = .ok text t := by
  refine ⟨d.isConcrete_applied hconcrete, ?_⟩
  cases hkind : d.kind with
  | abstract => simp [Declaration.isAbstract, hkind] at habstract
  | «structure» fields =>
    refine ⟨fun ds n text v hv => read_structure hgen hd hargs hbefore hrun hc hkind hv, fun k hk => ?_⟩
    simp [Declaration.constants, hkind] at hk
  | enumeration constants =>
    obtain ⟨hread, hwrite, -⟩ := read_enumeration hgen hd hargs hbefore hrun hc hkind
    rw [Declaration.applied_eq_selfType (hplain constants hkind) hargs]
    refine ⟨fun ds n text v hv => hread hv, fun k hk => hwrite k ?_⟩
    rwa [Declaration.constants, hkind] at hk

/-- Nodes without an argument, which are nodes of values of any shape, and colours. -/
theorem read_typed_node : ∃ c s' c' s'',
    (ofModules [nodeModule] []).resolve 5 (.named "demo::Node" []) .empty = .ok c s' ∧
      (ofModules [nodeModule] []).resolve 5 (.named "demo::Colour" []) s' = .ok c' s'' ∧
      (∀ ds n text v, c.fromJson ds n text = .ok (some v) → v.runtimeType = .named "demo::Node" [.any]) ∧
      (∀ ds n text v, c'.fromJson ds n text = .ok (some v) → v.runtimeType = .named "demo::Colour" []) ∧
      ∀ n t, ∃ text, c'.toJson (ofModules [nodeModule] []) (n + 1) (some (.enum (.named "demo::Colour" []) "Red")) t =
        .ok text t := by
  have hgenerate : nodeModel.generate .standard = .ok nodeModule := by rfl
  have hresolves : succeeds (fun _ s => succeeds (fun _ _ => true)
      ((ofModules [nodeModule] []).resolve 5 (.named "demo::Colour" []) s))
      ((ofModules [nodeModule] []).resolve 5 (.named "demo::Node" []) .empty) = true := by decide +kernel
  obtain ⟨c, s', hc, hresolves⟩ := succeeds_iff.1 hresolves
  obtain ⟨c', s'', hc', -⟩ := succeeds_iff.1 hresolves
  have hnode : nodeModel.types[0] ∈ nodeModel.types := List.getElem_mem _
  have hcolour : nodeModel.types[1] ∈ nodeModel.types := List.getElem_mem _
  obtain ⟨-, hread, -⟩ :=
    read_typed (.of_generate hgenerate) hnode rfl nofun rfl (.inl rfl) (List.forall_mem_nil _) .start hc
  obtain ⟨-, hread', hwrite⟩ := read_typed (.of_generate hgenerate) hcolour rfl (fun _ _ => rfl) rfl (.inl rfl)
    (List.forall_mem_nil _) (.resolved .start hc) hc'
  exact ⟨c, s', c', s'', hc, hc', hread, hread', hwrite _ (List.mem_cons_self ..)⟩

/-- An enumeration with a parameter. -/
def tagDeclaration : Declaration := ⟨"demo::Tag", ["T"], .enumeration [⟨"A", none⟩], List.nodup_singleton "T"⟩

def tagModel : Model := ⟨[tagDeclaration], [], by decide⟩

def tagModule : AdapterModule := (tagModel.generate .standard).toOption.getD default

/-- The constants of an enumeration with parameters do not bear the type that was asked for. -/
theorem not_forall_read_typed :
    ¬∀ (model : Model) (options : GeneratorOptions) (m : AdapterModule) (d : Declaration) (args : List TypeRef),
      model.generate options = .ok m → d ∈ model.types → d.isAbstract = false →
      (TypeRef.named d.path args).isConcrete = true →
        (args = [] ∨ args.length = d.params.length) → ∀ fuel c s,
          (ofModules [m] []).resolve fuel (.named d.path args) .empty = .ok c s →
            (∀ n text v, c.fromJson s.delegates n text = .ok (some v) → v.runtimeType = d.applied args) ∧
              ∀ k ∈ d.constants, ∀ n, ∃ text, c.toJson (ofModules [m] []) (n + 1)
                (some (.enum (d.applied args) k.name)) s = .ok text s := by
  intro hall
  have hgenerate : tagModel.generate .standard = .ok tagModule := by rfl
  have hresolves : succeeds (fun c s => decide
      ((c.fromJson s.delegates 1 "\"A\"").toOption.join.map Value.runtimeType = some (.named "demo::Tag" [.var "T"])))
      ((ofModules [tagModule] []).resolve 2 (.named "demo::Tag" [.named "i32" []]) .empty) = true := by
    decide +kernel
  obtain ⟨c, s, hc, hresolves⟩ := succeeds_iff.1 hresolves
  obtain ⟨v, hjoin, htype⟩ := Option.map_eq_some_iff.1 (of_decide_eq_true hresolves)
  have hv : c.fromJson s.delegates 1 "\"A\"" = .ok (some v) := by
    cases hread : c.fromJson s.delegates 1 "\"A\"" with
    | error => simp [hread, Except.toOption] at hjoin
    | ok o => rw [show o = some v by simpa [hread, Except.toOption] using hjoin]
  obtain ⟨hread, -⟩ := hall tagModel .standard tagModule tagDeclaration [.named "i32" []] hgenerate
    (List.mem_singleton_self _) rfl rfl (.inr rfl) 2 c s hc
  rw [hread 1 _ _ hv] at htype
  simp [Declaration.applied] at htype

end Registry

end Marshal
