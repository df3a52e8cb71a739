import KbReg.Firmware.Bounds
import KbReg.Protocol.Losses

namespace KbReg.Protocol

open KbReg.Firmware KbReg.Host KbReg.Pieces

def LeavesRoom (fw : Build) (env : Env) (n : ℕ) (left : Bytes) : List Call → Prop
  | [] => True
  | .setKey _ :: calls => LeavesRoom fw env (n + 1) left calls
  | .storeData data :: calls =>
    (Finished env data n → (staged fw env n left data).length < fw.bufferMax) ∧
      LeavesRoom fw env (n + (data.length / 31 + 2)) (staged fw env n left data) calls

def Contained (fw : Build) (kb : Keyboard) (ws : List Written) : Prop :=
  ∀ malloc : ℕ → Bool, InBounds fw (deliver { fw with malloc := malloc } { kb with log := [] } ws)

variable {fw : Build} {env : Env} {kb : Keyboard}

lemma appends_inBounds (n : ℕ) (ps : List Bytes) :
    InBounds fw (deliver fw kb (stamp env n (ps.map (frame msgAppend)))) ↔ InBounds fw kb := by
  induction ps generalizing kb n with
  | nil => rfl
  | cons p ps ih =>
    simp only [List.map_cons, stamp, deliver_cons, arrive, frame_tail, receive_append]
    rw [ih]
    split_ifs
    · rfl
    · exact appendLoop_inBounds _

lemma body_inBounds (n : ℕ) (data : Bytes) :
    InBounds fw (deliver fw kb (stamp env n (bodyReports data))) ↔ InBounds fw kb := by
  simp only [bodyReports, stamp, deliver_cons, arrive, frame_tail, receive_set]
  rw [appends_inBounds]
  split_ifs
  · rfl
  · exact receive_set_inBounds (by simp)

lemma key_call_holds (env : Env) {left : Bytes} (h : Holds fw kb left) (n : ℕ) (k : UInt8) :
    Holds fw (deliver fw kb (stamp env n [frame msgKey [k]])) left := by
  rw [deliver_key]
  split_ifs
  · exact h
  · exact ⟨h.offset, h.fits, h.cells⟩

lemma key_call_inBounds (n : ℕ) (k : UInt8) :
    InBounds fw (deliver fw kb (stamp env n [frame msgKey [k]])) ↔ InBounds fw kb := by
  rw [deliver_key]
  split_ifs
  · rfl
  · rfl

lemma store_holds (env : Env) {left : Bytes} (h : Holds fw kb left) (n : ℕ) {data : Bytes}
    (hd : 0 ∉ data) :
    Holds fw (deliver fw kb (stamp env n (storeReports data))) (staged fw env n left data) := by
  have hb := deliver_body_holds fw env kb n left hd (Or.inr h)
  rw [deliver_store]
  split_ifs
  · exact hb
  · exact finish_holds hb

lemma store_inBounds (env : Env) {left : Bytes} (h : Holds fw kb left) (n : ℕ) {data : Bytes}
    (hd : 0 ∉ data) :
    InBounds fw (deliver fw kb (stamp env n (storeReports data))) ↔ InBounds fw kb ∧
      (Finished env data n ∧ Room fw kb → (staged fw env n left data).length < fw.bufferMax) := by
  have hb := deliver_body_holds fw env kb n left hd (Or.inr h)
  have hsame := deliver_body_same fw env kb n data
  rw [deliver_store, Finished]
  split_ifs with hlost
  · simp [body_inBounds, not_le.mpr hlost]
  · rw [finish_inBounds hb, body_inBounds, hsame.room]
    simp [not_lt.mp hlost]

theorem run_inBounds (env : Env) {calls : List Call}
    (hd : ∀ data, .storeData data ∈ calls → 0 ∉ data) {n : ℕ} {left : Bytes} (h : Holds fw kb left) :
    (LeavesRoom fw env n left calls → InBounds fw kb →
      InBounds fw (deliver fw kb (stamp env n (calls.flatMap Call.reports)))) ∧
    ((∀ m, fw.malloc m = true) →
      InBounds fw (deliver fw kb (stamp env n (calls.flatMap Call.reports))) →
        InBounds fw kb ∧ LeavesRoom fw env n left calls) := by
  induction calls generalizing kb n left with
  | nil => exact ⟨fun _ hin => hin, fun _ hin => ⟨hin, trivial⟩⟩
  | cons call calls ih =>
    have hrest : ∀ data, .storeData data ∈ calls → 0 ∉ data := fun data hm =>
      hd data (List.mem_cons_of_mem _ hm)
    rw [List.flatMap_cons, stamp_append, deliver_append]
    cases call with
    | setKey key =>
      obtain ⟨hto, hfrom⟩ := ih hrest (n := n + 1) (key_call_holds env h n (key.headD 0))
      rw [key_call_inBounds] at hto hfrom
      exact ⟨hto, hfrom⟩
    | storeData data =>
      have hnul : 0 ∉ data := hd data (by simp)
      have hlen : (Call.storeData data).reports.length = data.length / 31 + 2 := by
        simp [Call.reports, storeReports]
      rw [hlen]
      obtain ⟨hto, hfrom⟩ := ih hrest (n := n + (data.length / 31 + 2)) (store_holds env h n hnul)
      have hstore := store_inBounds env h n hnul
      constructor
      · rintro ⟨hlast, hafter⟩ hin
        exact hto hafter (hstore.mpr ⟨hin, fun hf => hlast hf.1⟩)
      · intro hm hin
        obtain ⟨hnow, hafter⟩ := hfrom hm hin
        obtain ⟨hbefore, hlast⟩ := hstore.mp hnow
        exact ⟨hbefore, fun hf => hlast ⟨hf, hm _, fun _ => hm _⟩, hafter⟩

lemma leavesRoom_malloc (malloc : ℕ → Bool) {n : ℕ} {left : Bytes} {calls : List Call} :
    LeavesRoom { fw with malloc := malloc } env n left calls ↔ LeavesRoom fw env n left calls := by
  induction calls generalizing n left with
  | nil => rfl
  | cons call calls ih =>
    cases call with
    | setKey key => exact ih
    | storeData data => exact and_congr_right fun _ => ih

lemma contained_run_iff {calls : List Call} (hd : ∀ data, .storeData data ∈ calls → 0 ∉ data) (n : ℕ)
    (hkb : Reachable fw kb) :
    Contained fw kb (stamp env n (calls.flatMap Call.reports)) ↔
      LeavesRoom fw env n kb.pending calls := by
  have hh := hkb.holds
  have hclear (malloc : ℕ → Bool) :
      Holds { fw with malloc := malloc } { kb with log := [] } kb.pending :=
    ⟨hh.offset, hh.fits, hh.cells⟩
  constructor
  · intro h
    have hrun := run_inBounds env hd (hclear fun _ => true) (n := n)
    exact (leavesRoom_malloc _).mp (hrun.2 (fun _ => rfl) (h fun _ => true)).2
  · intro h malloc
    exact (run_inBounds env hd (hclear malloc)).1 ((leavesRoom_malloc _).mpr h) (by simp [InBounds])

lemma leavesRoom_iff (hw : ∀ n, 0 ≤ env.write n) {n : ℕ} {left : Bytes} {calls : List Call} :
    LeavesRoom fw env n left calls ↔ ∀ data, .storeData data ∈ calls → data.length < fw.bufferMax := by
  induction calls generalizing n left with
  | nil => simp [LeavesRoom]
  | cons call calls ih =>
    cases call with
    | setKey key => simp [LeavesRoom, ih]
    | storeData data =>
      have hlast : (Finished env data n → (staged fw env n left data).length < fw.bufferMax) ↔
          data.length < fw.bufferMax := by
        rw [staged_all left data fun i _ => hw (n + i)]
        simp [Finished, hw]
      simp [LeavesRoom, ih, hlast]

theorem stays_in_buffer_iff (fw : Build) (env : Env) (s t : Session) (kb : Keyboard)
    (calls : List Call) (hkb : Reachable fw kb) (hd : ∀ data, .storeData data ∈ calls → 0 ∉ data)
    (ht : runCalls env s calls = .ok t) :
    (Contained fw kb (t.written.drop s.written.length) ↔
      LeavesRoom fw env s.written.length kb.pending calls) ∧
    ((∀ n, 0 ≤ env.write n) → (Contained fw kb (t.written.drop s.written.length) ↔
      ∀ data, .storeData data ∈ calls → data.length < fw.bufferMax)) := by
  obtain ⟨u, hu, hw, _⟩ := runCalls_written env s (runCalls_valid ht)
  obtain rfl : t = u := Except.ok.inj (ht.symm.trans hu)
  rw [hw, List.drop_left, contained_run_iff hd _ hkb]
  exact ⟨Iff.rfl, fun hsent => leavesRoom_iff hsent⟩

lemma long_text_leaves_buffer (hw : ∀ n, 0 ≤ env.write n) (hkb : Reachable fw kb) {data : Bytes}
    (hd : 0 ∉ data) (hlong : fw.bufferMax ≤ data.length) (s : Session) :
    ¬ Contained fw kb ((storeData env s data).written.drop s.written.length) := by
  have hnul : ∀ text : Bytes, .storeData text ∈ [Call.storeData data] → 0 ∉ text := by
    intro text hm
    obtain rfl : text = data := by simpa using hm
    exact hd
  have hreports : storeReports data = [Call.storeData data].flatMap Call.reports := by
    simp [Call.reports]
  rw [storeData_written, List.drop_left, hreports, contained_run_iff hnul _ hkb, leavesRoom_iff hw]
  intro h
  exact absurd (h data (by simp)) (Nat.not_lt.mpr hlong)

theorem full_buffer_leaves_buffer :
    ¬ Contained plainBuild plainKeyboard
      ((storeData (Env.prompt fun _ => 33) Session.fresh (List.replicate 8192 97)).written.drop
        Session.fresh.written.length) := by
  apply long_text_leaves_buffer
  · exact prompt_write
  · exact Reachable.powerUp _
  · exact fun hm => absurd (List.eq_of_mem_replicate hm) (by decide)
  · rw [List.length_replicate]
    exact Nat.le_refl _

theorem stays_in_buffer_greeting :
    Contained plainBuild plainKeyboard
      ((storeData (Env.prompt fun _ => 33) Session.fresh [104, 105]).written.drop
        Session.fresh.written.length) := by
  refine ((stays_in_buffer_iff _ (Env.prompt fun _ => 33) Session.fresh _ _ [.storeData [104, 105]]
    (Reachable.powerUp _) ?_ rfl).2 prompt_write).mpr ?_
  · intro data hm
    obtain rfl : data = [104, 105] := by simpa using hm
    decide
  · intro data hm
    obtain rfl : data = [104, 105] := by simpa using hm
    decide

end KbReg.Protocol
