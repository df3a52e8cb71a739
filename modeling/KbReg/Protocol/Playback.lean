import KbReg.Protocol.Losses
import Mathlib.Data.List.Flatten
import Mathlib.Data.List.TakeWhile

namespace KbReg.Protocol

open KbReg.Firmware KbReg.Host KbReg.Pieces

def playback (kb : Keyboard) (c : UInt16) : Option Bytes :=
  (kb.getRegister c).map fun node => node.data.takeWhile (· ≠ 0)

def tapped (fw : Build) (kb : Keyboard) (c : UInt16) : Option Played :=
  (processRecordUser fw { kb with rguiPressed := true } ⟨c, false, false⟩).2.1

/-- The S and A branches stop at the first zero of their report, so the buffer holds what is left of the
pieces. -/
def spliced (data : Bytes) : Bytes := ((pieces 31 data).map untilNul).flatten

variable {fw : Build} {env : Env} {kb : Keyboard}

lemma processRecordUser_plays {c : UInt16} {text : Bytes} (h : playback kb c = some text)
    (hc : c ≠ fw.kcRgui) (hpressed : kb.rguiPressed) :
    (processRecordUser fw kb ⟨c, false, false⟩).2.1 = some (.text text) := by
  obtain ⟨node, hnode, rfl⟩ := Option.map_eq_some_iff.mp h
  simp [processRecordUser, hc, hpressed, hnode]

lemma playback_stored {c : UInt16} {text : Bytes} (h : kb.stored c = some (text ++ [0]))
    (hd : 0 ∉ text) : playback kb c = some text := by
  obtain ⟨node, hnode, hdata⟩ := Option.map_eq_some_iff.mp h
  have hplayed : node.data.takeWhile (· ≠ 0) = text := by
    rw [hdata]
    exact untilNul_append_zero hd rfl
  rw [playback, hnode, Option.map_some, hplayed]

lemma tapped_eq {c : UInt16} (hc : c ≠ fw.kcRgui) : tapped fw kb c =
    some ((kb.stored c).elim (.guiTap c) fun data => .text (untilNul data)) := by
  have hget : ({ kb with rguiPressed := true } : Keyboard).getRegister c = kb.getRegister c := rfl
  cases hnode : kb.getRegister c with
  | none => simp [tapped, processRecordUser, hc, hget, hnode, Keyboard.stored]
  | some node => simp [tapped, processRecordUser, hc, hget, hnode, Keyboard.stored, untilNul]

lemma tapped_stored {c : UInt16} (hc : c ≠ fw.kcRgui) {text : Bytes} (hd : 0 ∉ text)
    (h : kb.stored c = some (text ++ [0])) : tapped fw kb c = some (.text text) := by
  rw [tapped_eq hc, h, Option.elim_some, untilNul_append_zero hd rfl]

lemma tapped_none {c : UInt16} (hc : c ≠ fw.kcRgui) (h : kb.stored c = none) :
    tapped fw kb c = some (.guiTap c) := by
  rw [tapped_eq hc, h, Option.elim_none]

lemma spliced_length_le (data : Bytes) : (spliced data).length ≤ data.length := by
  have hsub : ((pieces 31 data).flatMap untilNul).Sublist ((pieces 31 data).flatMap id) :=
    List.Sublist.flatMap_right _ fun p _ => (List.takeWhile_prefix _).sublist
  rw [List.flatMap_id, pieces_flatten (by omega)] at hsub
  exact hsub.length_le

lemma zero_not_mem_spliced (data : Bytes) : 0 ∉ spliced data := by
  intro h
  obtain ⟨l, hl, hm⟩ := List.mem_flatten.mp h
  obtain ⟨p, _, rfl⟩ := List.mem_map.mp hl
  have hp := List.mem_takeWhile_imp hm
  simp at hp

lemma deliver_body_spliced (fw : Build) (kb : Keyboard) {n : ℕ} {data : Bytes}
    (hw : ∀ i < data.length / 31 + 1, 0 ≤ env.write (n + i)) (hfit : data.length < fw.bufferMax) :
    Holds fw (deliver fw kb (stamp env n (bodyReports data))) (spliced data) := by
  have hset : ¬ env.write n < 0 := not_lt.mpr (hw 0 (by omega))
  have harrived : arrived env (n + 1) (pieces 31 data).tail = (pieces 31 data).tail := by
    apply arrived_all
    intro i hi
    have hh := hw (i + 1) (by simp at hi; omega)
    rwa [show n + (i + 1) = n + 1 + i by omega] at hh
  have hs := frame_set_untilNul fw kb (List.length_take_le 31 data)
  have hh : Holds fw (deliver fw _ (stamp env (n + 1) _)) _ :=
    deliver_appends_untilNul hs (n + 1) (pieces 31 data).tail
  have hsplit : spliced data =
      untilNul (data.take 31) ++ ((pieces 31 data).tail.map untilNul).flatten := by
    rw [spliced, pieces_head, List.map_cons, List.flatten_cons, List.tail_cons]
  rw [harrived, ← hsplit,
    List.take_of_length_le ((spliced_length_le data).trans hfit.le)] at hh
  rw [bodyReports, stamp, deliver_cons, arrive, if_neg hset]
  exact hh

theorem plays_prefix_iff (fw : Build) (env : Env) (s : Session) (kb : Keyboard) (data : Bytes)
    (hw : ∀ i < data.length / 31 + 2, 0 ≤ env.write (s.written.length + i))
    (hfit : data.length < fw.bufferMax) (hroom : Room fw kb) :
    playback (afterStore fw env s kb data) (kb.current fw) = some (untilNul data) ↔
      ∀ i x, (untilNul data).length < 31 * i → data[31 * i]? = some x → x = 0 := by
  have hbuffer := deliver_body_spliced fw kb (fun i hi => hw i (by omega)) hfit
  have hlen := (spliced_length_le data).trans_lt hfit
  have hstored : (afterStore fw env s kb data).stored (kb.current fw) = some (spliced data ++ [0]) := by
    rw [afterStore_eq, stored_after_store, if_pos ⟨hw _ (by omega), hroom, rfl⟩,
      copied_of_holds hbuffer hlen]
  rw [playback_stored hstored (zero_not_mem_spliced data), Option.some.injEq]
  apply (prefixes_flatten_iff (· ≠ 0) (by omega) data).trans
  constructor
  · intro h i x hlt hx
    simpa using h i x hlt hx
  · intro h i x hlt hx
    simpa using h i x hlt hx

theorem later_piece_spliced :
    playback (afterStore plainBuild (Env.prompt fun _ => 33) Session.fresh plainKeyboard
      (97 :: 0 :: List.replicate 29 98 ++ [99])) (plainKeyboard.current plainBuild) ≠
        some (untilNul (97 :: 0 :: List.replicate 29 98 ++ [99])) := by
  rw [afterStore_eq]
  decide +kernel

theorem plays_prefix_letter :
    playback (afterStore plainBuild (Env.prompt fun _ => 33) Session.fresh plainKeyboard [97, 0, 98])
      (plainKeyboard.current plainBuild) = some [97] := by
  apply (plays_prefix_iff plainBuild (Env.prompt fun _ => 33) Session.fresh plainKeyboard [97, 0, 98]
    (fun _ _ => prompt_write _) (by decide) ⟨rfl, fun _ => rfl⟩).mpr
  intro i x hlt hx
  have hi : 31 * i < 3 := (List.getElem?_eq_some_iff.mp hx).1
  have hone : (untilNul [97, 0, 98]).length = 1 := by decide
  omega

end KbReg.Protocol
