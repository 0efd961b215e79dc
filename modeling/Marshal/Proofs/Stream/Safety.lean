import Marshal.Proofs.Stream.CallsInStep

/-!
# Safety of a reader

However a reader is used, also after calls that failed, the machine over bytes does what the reader does, does not
crash, and stays safe (`runAll_safe`).  A call keeps the reader sound and the machine in step, and a machine in step
with a sound reader is safe (`Sound.safe`).
-/

namespace Marshal

namespace Reader

variable {text : List Char} {r : Reader} {k : TokenKind}

/-! ### Sound readers -/

private theorem starts_front (h : Sound text r) (hp : r.peeked = some k) (hk : k ≠ .endDocument) :
    ∃ x ∈ (view text r).byte?, ByteReader.starts k x = true := by
  have hbefore := h.before hp
  obtain ⟨c, s, hr, hc⟩ := hbefore.exists_front hk
  have hfront : r.cursor.rest.head? = some c := by
    rw [show r.cursor.rest = c :: s from hr, List.head?_cons]
  have hbyte := (byte_iff h hc).2 hfront
  have hfits := h.fits k hp
  have hkind : ByteReader.kindOfByte? c.toUInt8 = kindOf? c := by
    have hkinds := kindOfByte?_front h
    rw [hbyte, hfront] at hkinds
    exact Option.some.inj hkinds
  have hvalue (hvalue : ∃ c, r.cursor.rest.head? = some c ∧ kindOf? c = some k) :
      ByteReader.kindOfByte? c.toUInt8 = some k := by
    obtain ⟨d, hd, hdk⟩ := hvalue
    rw [hfront] at hd
    rw [hkind, Option.some.inj hd, hdk]
  refine ⟨c.toUInt8, hbyte, ?_⟩
  cases k
  case endDocument => exact absurd rfl hk
  case name | endArray | endObject =>
    obtain rfl := Option.some.inj (hfront.symm.trans hfits)
    rfl
  all_goals exact decide_eq_true (hvalue hfits)

/-- The machine of a sound reader is safe. -/
theorem Sound.safe (h : Sound text r) : (view text r).Safe := by
  refine ⟨⟨r.scopes.map .ofRead, r.document, rfl, ?_, ?_, ?_⟩, fun k hp => ⟨⟨r.top, ?_, h.allowed k hp⟩, ?_⟩⟩
  · unfold document
    split <;> rfl
  · intro scope hscope
    obtain ⟨scope', -, rfl⟩ := List.mem_map.1 hscope
    cases scope' <;> rfl
  · rw [List.length_map]
    exact h.depth_le
  · unfold top view
    cases r.scopes <;> rfl
  · split
    · next hk =>
      subst hk
      exact (fronts_view h).eq_none_iff.2 (h.fits _ hp)
    · next hk =>
      refine ⟨?_, starts_front h hp hk⟩
      obtain ⟨pre, hpre⟩ := ((h.before hp).between hk).splitAt?_eq
      rw [Text.isBoundary_eq, show (view text r).pos = r.cursor.offset from rfl,
        show (view text r).text = text from rfl, hpre]
      rfl

/-! ### Runs -/

/-- Calls in a row keep a reader sound and the machine in step, whether they fail or not. -/
private theorem Sound.runAll_eq (h : Sound text r) (qs : List Request) :
    Sound text (runAll Request.run qs r).2 ∧ .error .outOfFuel ∉ (runAll Request.run qs r).1 ∧
      runAll Request.runBytes qs (view text r) =
        ((runAll Request.run qs r).1.map (Except.mapError .fault), view text (runAll Request.run qs r).2) := by
  induction qs generalizing r with
  | nil => exact ⟨h, List.not_mem_nil, rfl⟩
  | cons q qs ih =>
    have hcall := q.agrees h
    generalize hreader : q.run r = x at hcall
    generalize hmachine : q.runBytes (view text r) = y at hcall
    cases hcall with
    | ok h' =>
      obtain ⟨hsound, hfuel, heq⟩ := ih h'
      rw [runAll_of_ok hreader, runAll_of_ok hmachine, heq]
      exact ⟨hsound, by simpa using hfuel, rfl⟩
    | error h' he =>
      obtain ⟨hsound, hfuel, heq⟩ := ih h'
      rw [runAll_of_error hreader, runAll_of_error hmachine, heq]
      exact ⟨hsound, by simpa [Ne.symm he] using hfuel, rfl⟩

private theorem sound_ofText (text : List Char) : Sound text (ofText text) :=
  .of_none (.between [] text) (Nat.zero_le _) rfl

end Reader

/-- However a reader is used, its machine stays safe, never crashes, and answers what the reader answers.  No loop or
skip runs out of fuel. -/
theorem ByteReader.runAll_safe (text : List Char) (qs : List Reader.Request) :
    let machine := Reader.runAll Reader.Request.runBytes qs (ofText text)
    let reader := Reader.runAll Reader.Request.run qs (Reader.ofText text)
    machine.2.Safe ∧ (∀ c, .error (.crash c) ∉ machine.1) ∧ .error (.fault .outOfFuel) ∉ machine.1 ∧
      machine = (reader.1.map (Except.mapError .fault), reader.2.view text) := by
  intro machine reader
  obtain ⟨hsound, hfuel, heq⟩ := (Reader.sound_ofText text).runAll_eq qs
  have hmachine : machine = (reader.1.map (Except.mapError .fault), reader.2.view text) := heq
  have hfault {e : Failure} (he : .error e ∈ machine.1) : ∃ e', e = .fault e' ∧ .error e' ∈ reader.1 := by
    rw [hmachine] at he
    obtain ⟨a, ha, hae⟩ := List.mem_map.1 he
    cases a with
    | ok => cases hae
    | error e' => exact ⟨e', (Except.error.inj hae).symm, ha⟩
  refine ⟨by rw [hmachine]; exact hsound.safe, fun c hc => ?_, fun he => ?_, hmachine⟩
  · obtain ⟨e, he, -⟩ := hfault hc
    cases he
  · obtain ⟨e, he, hmem⟩ := hfault he
    obtain rfl := Failure.fault.inj he
    exact hfuel hmem

/-- An unknown escape of two bytes leaves the machine inside the letter, where the next call refuses what is there. -/
example : (Reader.runAll Reader.Request.runBytes [.string, .peek] (ByteReader.ofText ['"', '\\', 'é', '"'])).1 =
    [.error (.fault (.malformed .invalidEscape 3)), .error (.fault (.malformed .trailingCharacters 3))] := by
  decide

/-- Elsewhere the machine does crash: here the token that was looked at is none that stands at the cursor. -/
example : ByteReader.nextNull ⟨['é'], 1, [.nonEmptyDocument], some .null⟩ =
    .error (.crash .slice) ⟨['é'], 1, [.nonEmptyDocument], none⟩ := rfl

end Marshal
