import KbReg.Detect.Startup
import KbReg.Lib.Overlay

namespace KbReg.Detect

open KbReg.Firmware KbReg.Host KbReg.Protocol KbReg.Overlay

def Effect.sent (e : Effect) : List Written :=
  e.actions.flatMap fun
    | .wrote _ sent => sent
    | _ => []

section Registers

variable (kc : UInt8 → UInt16)

def entries (pairs : List (Bytes × Bytes)) : List (UInt16 × Option Bytes) :=
  pairs.map fun pair => (kc (pair.1.headD 0), some (pair.2 ++ [0]))

def lastEntry (c : UInt16) (pairs : List (Bytes × Bytes)) : Option (Bytes × Bytes) :=
  pairs.reverse.find? fun pair => kc (pair.1.headD 0) = c

lemma last_entries (pairs : List (Bytes × Bytes)) (c : UInt16) : last (entries kc pairs) c =
    (lastEntry kc c pairs).map fun pair => (kc (pair.1.headD 0), some (pair.2 ++ [0])) := by
  rw [last, entries, ← List.map_reverse, List.find?_map]
  rfl

lemma run_pairs_text (m : RegisterMap) (pairs : List (Bytes × Bytes)) :
    (m.run kc (pairCalls pairs)).text = overlay m.text (entries kc pairs) := by
  induction pairs generalizing m with
  | nil => rfl
  | cons pair pairs ih => exact ih ((m.step kc (.setKey pair.1)).step kc (.storeData pair.2))

lemma run_table (m : RegisterMap) (pairs : List (Bytes × Bytes)) :
    m.run kc (tableCalls pairs) = ⟨overlay m.text (entries kc pairs), kc '.'.toUInt8⟩ := by
  rw [tableCalls, RegisterMap.run, List.foldl_append]
  apply RegisterMap.ext
  · exact run_pairs_text kc m pairs
  · rfl

end Registers

variable {fw : Build} {tbl : Table} {pairs : List (Bytes × Bytes)}

lemma tableCalls_fits (hkeys : ∀ pair ∈ pairs, pair.1 ≠ []) (htexts : ∀ pair ∈ pairs, Fits fw pair.2) :
    ∀ call ∈ tableCalls pairs, Call.Fits fw call := by
  intro call hm
  rcases List.mem_append.mp hm with hm | hm
  · obtain ⟨pair, hp, hc⟩ := List.mem_flatMap.mp hm
    simp only [List.mem_cons, List.not_mem_nil, or_false] at hc
    rcases hc with rfl | rfl
    · exact hkeys pair hp
    · exact htexts pair hp
  · rw [List.mem_singleton.mp hm]
    change ascii "." ≠ []
    decide

lemma sent_opened {device : UsbDevice} {dev : Path} {hid : Hid} (hopens : Opens hid device dev)
    (hpairs : keyTexts tbl = some pairs) (hkeys : ∀ pair ∈ pairs, pair.1 ≠ []) (env : Env) :
    (configureKeyboard tbl device hid env).sent =
      stamp env 0 ((tableCalls pairs).flatMap Call.reports) ∧
    (configureKeyboard tbl device hid env).stop = none := by
  obtain ⟨sent, hconf, hsent⟩ := configureKeyboard_opened hopens hpairs hkeys env
  rw [hconf, ← hsent]
  exact ⟨List.append_nil sent, rfl⟩

def sevenBit : Build := readmeBuild (· % 0x80) fun _ => true

def slice65Keyboard : Keyboard := powerUp sevenBit fun _ => 0

lemma opens_slice65 : Opens (busHid [slice65 1 0]) (slice65 1 0) 1 :=
  ⟨rfl, rfl, Option.some_ne_none _, Option.some_ne_none _⟩

lemma slice65_fits : ∀ pair ∈ [(ascii "n", ascii "John Doe")], Fits sevenBit pair.2 := by
  intro pair hm
  rw [List.mem_singleton.mp hm]
  exact ⟨by decide, by decide⟩

def keysTable (pairs : List (Bytes × Bytes)) : Table :=
  [(ascii "keys", .table (pairs.map fun pair => (pair.1, .leaf none (some pair.2))))]

section Keys

def Kept (fw : Build) (kb : Keyboard) (pairs : List (Bytes × Bytes)) (sent : List Written) : Prop :=
  ∀ before pair after, pairs = before ++ pair :: after →
    (deliver fw kb sent).stored (keycodeOf fw (pair.1.headD 0)) =
      (deliver fw kb (sent.take ((before ++ [pair]).flatMap pairReports).length)).stored
        (keycodeOf fw (pair.1.headD 0))

lemma widen_injective (fw : Build) : Function.Injective fw.widen := by
  intro a b h
  have hlow (c : UInt8) : (fw.widen c).toUInt8 = c := by
    rw [Build.widen]
    split_ifs
    · apply UInt8.eq_of_toBitVec_eq
      change ((c.toBitVec.signExtend 16).setWidth 8) = c.toBitVec
      ext i hi
      rw [BitVec.getElem_setWidth, BitVec.getLsbD_signExtend, if_pos hi, BitVec.getLsbD_eq_getElem hi]
      rw [decide_eq_true (by omega), Bool.true_and]
    · simp
  rw [← hlow a, h, hlow b]

lemma selected_of_key {w : Written} {ws : List Written} (hkey : isKey w) (hres : 0 ≤ w.res) :
    Selected (w :: ws) := by
  intro pre v post he hf _
  cases pre with
  | nil =>
    obtain ⟨rfl, _⟩ := List.cons.inj he
    exact absurd (hkey.symm.trans hf) key_ne_finish
  | cons u pre =>
    obtain ⟨rfl, _⟩ := List.cons.inj he
    exact ⟨w, List.mem_cons_self, hkey, hres⟩

variable {env : Env}

lemma later_pairs_keep {n : ℕ} {after : List (Bytes × Bytes)}
    (hk : ∀ w ∈ stamp env n (after.flatMap pairReports), isKey w → 0 ≤ w.res) (kb : Keyboard)
    {c : UInt16} (hc : ∀ pair ∈ after, keycodeOf fw (pair.1.headD 0) ≠ c) :
    (deliver fw kb (stamp env n (after.flatMap pairReports))).stored c = kb.stored c := by
  cases after with
  | nil => rfl
  | cons pair after =>
    have hsel : Selected (stamp env n ((pair :: after).flatMap pairReports)) := by
      have hfirst : isKey ⟨frame msgKey [pair.1.headD 0], env.write n⟩ := rfl
      exact selected_of_key hfirst (hk _ List.mem_cons_self hfirst)
    apply (frame_run hsel _).1
    · intro hm
      obtain ⟨q, hq, he⟩ := List.mem_map.mp hm
      exact hc q hq he
    · intro w hw hkey
      exact key_of_pairReports (report_of_mem_stamp hw) hkey

lemma tableCalls_reports (pairs : List (Bytes × Bytes)) : (tableCalls pairs).flatMap Call.reports =
    pairs.flatMap pairReports ++ [frame msgKey ['.'.toUInt8]] := by
  rw [tableCalls, List.flatMap_append, pairCalls_reports]
  rfl

lemma kept_of_keycodes (hk : ∀ w ∈ stamp env 0 ((tableCalls pairs).flatMap Call.reports),
      isKey w → 0 ≤ w.res)
    (hdistinct : (pairs.map fun pair => keycodeOf fw (pair.1.headD 0)).Nodup) (kb : Keyboard) :
    Kept fw kb pairs (stamp env 0 ((tableCalls pairs).flatMap Call.reports)) := by
  rintro before pair after rfl
  have hreports : (tableCalls (before ++ pair :: after)).flatMap Call.reports =
      (before ++ [pair]).flatMap pairReports ++ after.flatMap pairReports ++
        [frame msgKey ['.'.toUInt8]] := by
    rw [tableCalls_reports, ← List.flatMap_append, List.append_assoc]
    rfl
  rw [hreports, stamp_append, stamp_append] at hk ⊢
  have hlen : (stamp env 0 ((before ++ [pair]).flatMap pairReports)).length =
      ((before ++ [pair]).flatMap pairReports).length := stamp_length _ _ _
  rw [deliver_append, deliver_append, List.append_assoc, List.take_left' hlen]
  have hlast (kb : Keyboard) (n : ℕ) :
      (deliver fw kb (stamp env n [frame msgKey ['.'.toUInt8]])).stored = kb.stored := by
    apply deliver_stored
    intro w hw
    rw [isFinish, List.mem_singleton.mp (report_of_mem_stamp hw)]
    exact key_ne_finish
  rw [hlast]
  apply later_pairs_keep
  · intro w hw
    exact hk w (List.mem_append_left _ (List.mem_append_right _ hw))
  · intro q hq he
    rw [List.map_append, List.map_cons, List.nodup_append] at hdistinct
    have hnot := (List.nodup_cons.mp hdistinct.2.1).1
    exact hnot (List.mem_map.mpr ⟨q, hq, he⟩)

lemma pairReports_keys (pair : Bytes × Bytes) :
    (pairReports pair).filter (fun r => r.tail.headD 0 = msgKey) = [frame msgKey [pair.1.headD 0]] := by
  rw [pairReports, List.filter_cons_of_pos (by rfl), List.filter_eq_nil_iff.mpr]
  intro r hr
  rw [decide_eq_true_eq]
  rw [storeReports_eq] at hr
  rcases List.mem_append.mp hr with hr | hr
  · exact (body_not_finish pair.2 hr).2
  · rw [List.mem_singleton.mp hr]
    exact key_ne_finish.symm

/-- A key is sent as its first byte, however long it is. Entries keep their texts if these bytes are
different ASCII characters and no K report is lost. -/
theorem first_bytes_separate (fw : Build) (tbl : Table) (pairs : List (Bytes × Bytes))
    (device : UsbDevice) (dev : Path) (hid : Hid) (env : Env) (kb : Keyboard)
    (hpairs : keyTexts tbl = some pairs) (hkeys : ∀ pair ∈ pairs, pair.1 ≠ [])
    (hopens : Opens hid device dev) :
    (((configureKeyboard tbl device hid env).sent.map Written.report).filter
        fun r => r.tail.headD 0 = msgKey) =
      (pairs.map fun pair => frame msgKey [pair.1.headD 0]) ++ [frame msgKey ['.'.toUInt8]] ∧
    ((∀ a b, a < 0x80 → b < 0x80 → fw.asciiToKeycodeLut a = fw.asciiToKeycodeLut b → a = b) →
      (∀ pair ∈ pairs, pair.1.headD 0 < 0x80) → (pairs.map fun pair => pair.1.headD 0).Nodup →
      (∀ w ∈ (configureKeyboard tbl device hid env).sent, isKey w → 0 ≤ w.res) →
        Kept fw kb pairs (configureKeyboard tbl device hid env).sent) := by
  rw [(sent_opened hopens hpairs hkeys env).1]
  constructor
  · rw [stamp_reports, tableCalls_reports, List.filter_append, List.filter_flatMap]
    simp only [pairReports_keys]
    rw [List.map_eq_flatMap]
    rfl
  · intro hlut hascii hfirst hk
    apply kept_of_keycodes hk
    have hmap : (pairs.map fun pair => keycodeOf fw (pair.1.headD 0)) =
        (pairs.map fun pair => pair.1.headD 0).map (keycodeOf fw) := by
      rw [List.map_map]
      rfl
    rw [hmap, List.nodup_map_iff_inj_on hfirst]
    intro a ha b hb he
    obtain ⟨p, hp, rfl⟩ := List.mem_map.mp ha
    obtain ⟨q, hq, rfl⟩ := List.mem_map.mp hb
    exact hlut _ _ (hascii p hp) (hascii q hq) (widen_injective fw he)

lemma sent_keysTable (pairs : List (Bytes × Bytes)) (hkeys : ∀ pair ∈ pairs, pair.1 ≠ []) (env : Env) :
    (configureKeyboard (keysTable pairs) (slice65 1 0) (busHid [slice65 1 0]) env).sent =
      stamp env 0 ((tableCalls pairs).flatMap Call.reports) := by
  refine (sent_opened opens_slice65 ?_ hkeys env).1
  simp only [keyTexts, keysTable, node]
  rw [Keyed.find]
  simp [Toml.asTable, Toml.valueOr, Function.comp_def]

theorem keys_collapse :
    -- two keys with one first byte, and a lost K report
    ¬ Kept sevenBit slice65Keyboard [(ascii "ab", ascii "x"), (ascii "ac", ascii "y")]
        (configureKeyboard (keysTable [(ascii "ab", ascii "x"), (ascii "ac", ascii "y")]) (slice65 1 0)
          (busHid [slice65 1 0]) (Env.prompt fun _ => 33)).sent ∧
      ¬ Kept sevenBit slice65Keyboard [(ascii "a", ascii "x"), (ascii "b", ascii "y")]
        (configureKeyboard (keysTable [(ascii "a", ascii "x"), (ascii "b", ascii "y")]) (slice65 1 0)
          (busHid [slice65 1 0]) (losing 3)).sent := by
  rw [sent_keysTable _ (by decide), sent_keysTable _ (by decide)]
  constructor
  · intro h
    have hkept := h [] (ascii "ab", ascii "x") [(ascii "ac", ascii "y")] rfl
    revert hkept
    decide +kernel
  · intro h
    have hkept := h [] (ascii "a", ascii "x") [(ascii "b", ascii "y")] rfl
    revert hkept
    decide +kernel

theorem first_bytes_separate_letters :
    Kept sevenBit slice65Keyboard [(ascii "a", ascii "x"), (ascii "b", ascii "y")]
      (configureKeyboard (keysTable [(ascii "a", ascii "x"), (ascii "b", ascii "y")]) (slice65 1 0)
        (busHid [slice65 1 0]) (Env.prompt fun _ => 33)).sent := by
  refine (first_bytes_separate sevenBit _ [(ascii "a", ascii "x"), (ascii "b", ascii "y")] (slice65 1 0) 1
    (busHid [slice65 1 0]) (Env.prompt fun _ => 33) slice65Keyboard rfl (by decide) opens_slice65).2
      ?_ ?_ ?_ ?_
  · intro a b ha hb he
    change a % 0x80 = b % 0x80 at he
    rwa [UInt8.mod_eq_of_lt ha, UInt8.mod_eq_of_lt hb] at he
  · decide
  · decide
  · intro w hw _
    rw [sent_keysTable _ (by decide)] at hw
    obtain ⟨n, hn⟩ := res_of_mem_stamp hw
    rw [hn]
    exact prompt_write n

end Keys

end KbReg.Detect
