import AtlasDb.Core.Rereading
import AtlasDb.Governance.Records

/-!
# Stored payloads re-verify

`get_artifact` reads the payload of a row with `json.loads`, canonicalises it and compares the
digest with the one stored. The bytes of a value come out the same just when its paths are
normalised; an artifact holds no path, so what `_admit_model` wrote is always read back.
-/

namespace AtlasDb.Governance

open Core Lib

/-- **Stored payloads re-verify.** Canonical text is read back to the same bytes if and only if the
paths of the value are normalised, and in every run `get_artifact` returns each artifact it
finds. -/
theorem stored_payloads_reverify_iff (nfc : Nfc) :
    (∀ (v : PyValue) (text : List Char), v.WellFormed →
        canonicalJsonBytes nfc v = .ok (utf8 text) →
        ∃ j, Json.loads text = some j ∧
          (canonicalJsonBytes nfc j.toPy = .ok (utf8 text) ↔ v.PathsNormal nfc)) ∧
      ∀ sys : System Store StoreError Unit, Reachable nfc sys → ∀ artifactId row,
        sys.state.artifact? artifactId = some row →
          ∃ record,
          ((getArtifact nfc artifactId).run sys.state).1 = .ok (record, row.payloadJson) := by
  refine ⟨fun v text hw h => canonicalJsonBytes_reread_iff hw h,
    fun sys hsys artifactId row hfind => ?_⟩
  have hreadable : row.Readable nfc :=
    artifactsReadable_of_reachable hsys row (List.mem_of_find?_eq_some hfind)
  obtain ⟨record, hrecord⟩ := hreadable.toRecord
  refine ⟨record, ?_⟩
  rw [getArtifact_of_found hreadable hfind, hrecord]
  rfl

namespace Demo

/-- Composes one letter with its accent, as NFC does. -/
def composing : Nfc where
  normalize s := if s = "e\u0301" then "\u00e9" else s
  idem s := by
    by_cases h : s = "e\u0301"
    · rw [if_pos h]
      decide
    · rw [if_neg h, if_neg h]
  ascii s h := by
    refine if_neg ?_
    rintro rfl
    exact absurd h (by decide)

/-- A text to normalise, beside a normalised path. -/
def normalPathValue : PyValue := .list [.path "\u00e9", .set [.str "e\u0301"]]

def normalPathText : List Char := (Json.arr [tagged "$path" "\u00e9", .arr [.str "\u00e9"]]).dumps

/-- A path in normal form. -/
theorem normalPath_reverifies :
    canonicalJsonBytes composing normalPathValue = .ok (utf8 normalPathText) ∧
      ∃ j, Json.loads normalPathText = some j ∧
        canonicalJsonBytes composing j.toPy = .ok (utf8 normalPathText) := by
  have hbytes : canonicalJsonBytes composing normalPathValue = .ok (utf8 normalPathText) := rfl
  have hpath : composing.normalize "\u00e9" = "\u00e9" := by decide
  obtain ⟨j, hread, hiff⟩ :=
    (stored_payloads_reverify_iff composing).1 normalPathValue normalPathText
    ⟨trivial, ⟨trivial, trivial⟩, trivial⟩ hbytes
  exact ⟨hbytes, j, hread, hiff.2 ⟨hpath, ⟨trivial, trivial⟩, trivial⟩⟩

/-- A file name as a decomposing file system gives it. -/
def decomposedPath : PyValue := .path "e\u0301"

def decomposedText : List Char := (tagged "$path" "e\u0301").dumps

theorem decomposedPath_bytes :
    canonicalJsonBytes composing decomposedPath = .ok (utf8 decomposedText) := rfl

/-- A path that is not normalised is stored as it is, and normalised when it is read back. -/
theorem decomposed_path_not_reverified :
    canonicalJsonBytes composing decomposedPath = .ok (utf8 decomposedText) ∧
      ¬ ∃ j, Json.loads decomposedText = some j ∧
        canonicalJsonBytes composing j.toPy = .ok (utf8 decomposedText) := by
  obtain ⟨j, hread, hiff⟩ :=
    canonicalJsonBytes_reread_iff (show decomposedPath.WellFormed from trivial)
    decomposedPath_bytes
  refine ⟨decomposedPath_bytes, ?_⟩
  rintro ⟨j', hread', hbytes⟩
  rw [hread] at hread'
  obtain rfl := Option.some.inj hread'
  have hnormal : composing.normalize "e\u0301" = "e\u0301" := hiff.1 hbytes
  exact absurd hnormal (by decide)

end Demo

end AtlasDb.Governance
