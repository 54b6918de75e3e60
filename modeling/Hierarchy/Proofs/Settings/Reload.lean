import Hierarchy.Proofs.Toml.Documents
import Hierarchy.Toml.Reader

/-!
# Settings written and read again

A settings file that `toToml` writes names every setting.  Read again, it is the overlay of all
these settings, so that nothing of the settings under it is left.
-/

namespace Hierarchy

namespace Toml

theorem strings?_list (items : List String) :
    (Value.list (items.map fun s => .text s.toList)).strings? = some items := by
  unfold Value.strings?
  dsimp only
  induction items with
  | nil => rfl
  | cons s items ih =>
    rw [List.map_cons, List.mapM_cons, ih]
    simp [Value.string?]

theorem Fields.setting_of_lookup {β : Type} {fields : Fields} {key : String} {value : Value}
    {read : Value → Option β} {b : β} (hlookup : fields.lookup key.toList = some value)
    (hread : read value = some b) : fields.setting key read = some (some b) := by
  unfold Fields.setting
  rw [hlookup]
  dsimp only
  rw [hread, Option.map_some]

end Toml

open Toml

namespace Settings

/-- The lines of the settings file that names every setting. -/
def lines (s : Settings) (h : s.parallel < Text.int64Limit) : List Line := [
  ⟨"closure".toList, _, _, rfl, rfl, denotes_truth s.closure⟩,
  ⟨"parallel".toList, _, _, rfl, rfl, denotes_nat h⟩,
  ⟨"sort".toList, _, _, rfl, rfl, denotes_textList s.sort⟩,
  ⟨"output".toList, _, _, rfl, rfl, denotes_quoted s.output.name⟩,
  ⟨"node_symbol".toList, _, _, rfl, rfl, denotes_quoted s.nodeSymbol⟩]

/-- The overlay that names every setting. -/
def asOverlay (s : Settings) : Overlay :=
  ⟨some s.closure, some s.parallel, some s.sort, some s.output, some s.nodeSymbol⟩

variable {s : Settings}

theorem toToml_eq (h : s.parallel < Text.int64Limit) :
    s.toToml = .ok (String.ofList ((s.lines h).flatMap Line.written)) := by
  unfold toToml
  rw [if_pos h]
  congr 1
  apply String.toList_inj.1
  simp [lines, Line.written, line]

example : Settings.default.toToml = .ok
    "closure = false\nparallel = 0\nsort = []\noutput = \"table\"\nnode_symbol = \"⊗\"\n" := rfl

theorem ofToml?_lines (h : s.parallel < Text.int64Limit) :
    Overlay.ofToml? (String.ofList ((s.lines h).flatMap Line.written)) = some s.asOverlay := by
  let fields : Fields := (s.lines h).map Line.field
  have hread : readDocument ((s.lines h).flatMap Line.written) = some fields :=
    readDocument_written (s.lines h) (by simp [lines])
  have hclosure : Fields.setting fields "closure" Value.truth? = some (some s.closure) :=
    Fields.setting_of_lookup rfl rfl
  have hparallel : Fields.setting fields "parallel" Value.nat? = some (some s.parallel) :=
    Fields.setting_of_lookup rfl (by simp [Value.nat?])
  have hsort : Fields.setting fields "sort" Value.strings? = some (some s.sort) :=
    Fields.setting_of_lookup rfl (strings?_list s.sort)
  have houtput : Fields.setting fields "output" Value.mode? = some (some s.output) :=
    Fields.setting_of_lookup rfl (by simp [Value.mode?])
  have hsymbol : Fields.setting fields "node_symbol" Value.string? = some (some s.nodeSymbol) :=
    Fields.setting_of_lookup rfl (by simp [Value.string?])
  unfold Overlay.ofToml?
  rw [String.toList_ofList, hread]
  change (do
    let closure ← Fields.setting fields "closure" Value.truth?
    let parallel ← Fields.setting fields "parallel" Value.nat?
    let sort ← Fields.setting fields "sort" Value.strings?
    let output ← Fields.setting fields "output" Value.mode?
    let nodeSymbol ← Fields.setting fields "node_symbol" Value.string?
    return (⟨closure, parallel, sort, output, nodeSymbol⟩ : Overlay)) = _
  rw [hclosure, hparallel, hsort, houtput, hsymbol]
  rfl

/-- Settings that can be written are read back whole, over any others; settings with too many
workers cannot be written. -/
theorem toToml_reload (s : Settings) :
    (s.parallel < Text.int64Limit → ∃ text o, s.toToml = .ok text ∧
      Overlay.ofToml? text = some o ∧ ∀ base : Settings, base.merge o = s) ∧
    (Text.int64Limit ≤ s.parallel →
      s.toToml = .error (.settings "serialize config: out-of-range value for u64 type")) :=
  ⟨fun h => ⟨_, s.asOverlay, toToml_eq h, ofToml?_lines h, fun _ => rfl⟩,
    fun h => if_neg (Nat.not_lt.2 h)⟩

/-- Settings with quotes of all kinds, backslashes, control characters and line ends. -/
def awkward : Settings where
  closure := true
  parallel := 9223372036854775807
  sort := ["say \"\"\"", "\'\'\'\r\n", "\\u0000", "\x00\n\""]
  output := .tree
  nodeSymbol := "\n\t⊗ \'\""

/-- One worker more. -/
def crowded : Settings := { awkward with parallel := 9223372036854775808 }

theorem awkward_reload :
    (awkward.parallel < Text.int64Limit ∧ ∃ text o, awkward.toToml = .ok text ∧
      Overlay.ofToml? text = some o ∧ ∀ base : Settings, base.merge o = awkward) ∧
    (Text.int64Limit ≤ crowded.parallel ∧
      crowded.toToml = .error (.settings "serialize config: out-of-range value for u64 type")) :=
  ⟨⟨by decide, (toToml_reload awkward).1 (by decide)⟩,
    by decide, (toToml_reload crowded).2 (by decide)⟩

end Settings

end Hierarchy
