import StackCalc.Proofs.Calculator.Globals
import StackCalc.Proofs.Wire.Incomplete

/-! # Globals that are stored in part

Whatever a dump leaves behind is not loaded before it is a complete record (`loadGlobals_incomplete`):
no proper part of the bytes of a dump that succeeds, and none of what a dump has written that fails. A
calculator with the same codec table refuses it with a fault of the data store, and stays as it was.

The codec table of a calculator comes from loading entries, whatever else is asked of it, so only kinds with a
codec have numbers in it. -/

namespace StackCalc

namespace Calculator

/-! ### Records that are broken off -/

/-- **The calculator refuses the bytes**: loading them ends in a fault of the data store and changes nothing. -/
def Refuses (c : Calculator) (bytes : Wire.Bytes) : Prop :=
  ∃ f, (loadGlobals bytes).outcome c = (.error f, c) ∧ f.category = .dataStore

/-- Bytes that hold no record are refused. -/
theorem refuses_of_readRecord {c : Calculator} {bytes : Wire.Bytes}
    (h : (Wire.readRecord (· == ·) Wire.readText (Wire.readValue c.codecs 0)).Refuses bytes) :
    c.Refuses bytes := by
  obtain ⟨f, rest, hread, hf⟩ := h
  refine ⟨f, ?_, hf⟩
  rw [outcome_loadGlobals, hread]

/-- **Incomplete records are never loaded.** A calculator with the same codec table refuses every proper part
of what a dump has written that succeeds, and what a dump has written, or a part of it, that is broken off
inside an entry; a dump that is broken off by a missing name has written nothing, and that is refused as well. -/
theorem loadGlobals_incomplete {ok : Request → Prop} {c c' d : Calculator} (hc : Reached ok c)
    (hcodecs : d.codecs = c.codecs) {names : List Text}
    (hnames : ∀ name ∈ names, Wire.IsShort name)
    (hvalues : ∀ name ∈ names, ∀ v, c.value? name = .ok v → v.ShortTexts ∧ v.Formed) :
    (∀ bytes, (dumpGlobals names).outcome c = (.ok (.ok bytes), c') →
      ∀ part, part <+: bytes → part ≠ bytes → d.Refuses part) ∧
    (∀ bytes f, (dumpGlobals names).outcome c = (.ok ⟨bytes, some f⟩, c') →
      ∀ part, part <+: bytes → d.Refuses part) ∧
    ∀ f, (dumpGlobals names).outcome c = (.error f, c') → d.Refuses [] := by
  obtain ⟨b, hb⟩ := hc.sound.root
  obtain ⟨loaded, hloaded⟩ := hc.codecs_loaded
  have hkinds : c.codecs.Encodes := hloaded ▸ Wire.CodecTable.encodes_load _ loaded
  have hends : ∀ w, (dumpGlobals names).outcome c = (.ok w, c') →
      (Wire.readRecord (· == ·) Wire.readText (Wire.readValue d.codecs 0)).Delimits w := fun w hw => by
    obtain ⟨entries, hentries, rfl⟩ := dumpGlobals_wrote hb hw
    rw [hcodecs]
    refine Wire.delimits_record hc.sound.codecs hkinds 0 fun e he => ?_
    have hname : e.1 ∈ names := (hentries.mem_iff e.1).1 (List.mem_map_of_mem he)
    exact ⟨hnames _ hname, hvalues _ hname _ ((value?_eq_ok hb).2 (hentries.value e he))⟩
  refine ⟨fun bytes hdump part hpart hproper => ?_, fun bytes f hdump part hpart => ?_, fun f _ => ?_⟩
  · exact refuses_of_readRecord ((hends _ hdump).refuses part hpart fun heq => absurd heq hproper)
  · exact refuses_of_readRecord ((hends _ hdump).refuses part hpart fun _ hnone => by cases hnone)
  · exact refuses_of_readRecord (Wire.Reader.Refuses.byte_nil.bind _ |>.bind _)

/-- Of two numbers the second is out of range: neither what has been written nor a part of it is loaded. -/
theorem loadGlobals_incomplete_numbers :
    let d := ((Request.codecs [(.str "int", .int 1)]).perform.outcome (bare false false)).2
    let c := ((Request.define "y" (.int (1 <<< 63))).perform.outcome
      ((Request.define "x" (.int 7)).perform.outcome d).2).2
    let bytes : Wire.Bytes := [2, 1, 120, 1, 0, 0, 0, 0, 0, 0, 0, 7, 1, 121, 1]
    (∃ f, (dumpGlobals ["x", "y"]).outcome c = (.ok ⟨bytes, some f⟩, c)) ∧
      d.Refuses bytes ∧ d.Refuses (bytes.take 12) := by
  intro d c bytes
  have hcode : ∀ n < 128, Wire.LengthCode.encode n = [UInt8.ofNat n] := fun n hn => Wire.LengthCode.encode_of_lt hn
  have hx : Wire.encodeText "x" = .ok [1, 120] := by
    rw [Wire.encodeText_ofString, hcode _ (by decide)]
    rfl
  have hy : Wire.encodeText "y" = .ok [1, 121] := by
    rw [Wire.encodeText_ofString, hcode _ (by decide)]
    rfl
  have hseven : Wire.writeValue c.codecs (.own (.int 7)) = .ok [1, 0, 0, 0, 0, 0, 0, 0, 7] := by
    have hkind : Wire.writeValue c.codecs (.own (.int 7)) =
      (Wire.LengthCode.write (1 : Nat)).andThen (.ok (Wire.encodeInt 7)) := rfl
    rw [hkind, Wire.write_natCast, hcode _ (by decide)]
    rfl
  have hlarge : ∃ f, Wire.writeValue c.codecs (.own (.int (1 <<< 63))) = ⟨[1], some f⟩ := by
    have hkind : Wire.writeValue c.codecs (.own (.int (1 <<< 63))) =
      (Wire.LengthCode.write (1 : Nat)).andThen (.fail (Wire.unencodable (.int (1 <<< 63)))) := rfl
    rw [hkind, Wire.write_natCast, hcode _ (by decide)]
    exact ⟨_, rfl⟩
  obtain ⟨f, hlarge⟩ := hlarge
  have hdump : (dumpGlobals ["x", "y"]).outcome c = (.ok ⟨bytes, some f⟩, c) := by
    have hrecord : (dumpGlobals ["x", "y"]).outcome c = (.ok (Wire.writeRecord
      Wire.encodeText (Wire.writeValue c.codecs)
      [("x", .own (.int 7)), ("y", .own (.int (1 <<< 63)))]), c) := rfl
    rw [hrecord, Wire.writeRecord, Wire.write_natCast, hcode _ (by decide)]
    simp only [List.map_cons, List.map_nil, hx, hy, hseven, hlarge]
    rfl
  have hd : Reached (fun _ => True) d := (Reached.bare false false).perform _ trivial
  have hc : Reached (fun _ => True) c := (hd.perform _ trivial).perform _ trivial
  have hnames : ∀ name ∈ (["x", "y"] : List Text), Wire.IsShort name := by
    intro name hname
    rcases List.mem_pair.1 hname with rfl | rfl <;> exact Wire.isShort_ofString (by decide)
  have hvalues : ∀ name ∈ (["x", "y"] : List Text), ∀ v, c.value? name = .ok v → v.ShortTexts ∧ v.Formed := by
    intro name hname v hv
    rcases List.mem_pair.1 hname with rfl | rfl <;> cases hv <;> exact ⟨trivial, trivial⟩
  have hrefuses : ∀ part, part <+: bytes → d.Refuses part :=
    (loadGlobals_incomplete hc (d := d) rfl hnames hvalues).2.1 bytes f hdump
  exact ⟨⟨f, hdump⟩, hrefuses bytes (List.prefix_refl bytes), hrefuses _ (List.take_prefix 12 bytes)⟩

end Calculator

end StackCalc
