import KbReg.Cli.Main
import KbReg.Lib.Escaping
import KbReg.Protocol.Losses

namespace KbReg.Cli

open KbReg.Firmware KbReg.Host KbReg.Protocol KbReg.Escaping

def backslash : UInt8 := 0x5C

def space : UInt8 := 0x20

lemma escape_eq_quote : escape = quote backslash := rfl

def unescape (stored : Bytes) : Option Bytes := unquote backslash (cString stored)

lemma cString_stored {data : Bytes} (hd : 0 ∉ data) : cString (data ++ [0]) = data :=
  untilNul_append_zero hd rfl

theorem raw_lossless (fw : Build) :
    (∀ (env : Env) (s : Session) (kb : Keyboard) (data : Bytes), 0 ∉ data →
      data.length + data.count backslash < fw.bufferMax →
      (∀ i < (escape data).length / 31 + 2, 0 ≤ env.write (s.written.length + i)) → Room fw kb →
      ((afterStore fw env s kb (escape data)).stored (kb.current fw)).bind unescape = some data) ∧
    Function.Injective escape := by
  refine ⟨fun env s kb data hd hfit hw hroom => ?_, quote_injective backslash⟩
  have he : 0 ∉ escape data := fun h => hd (mem_of_mem_quote backslash h)
  have hlen : (escape data).length < fw.bufferMax := by
    rw [escape_eq_quote, quote_length]
    exact hfit
  have hok := (store_ok_iff he kb s.written.length).mpr ⟨hw, hlen, hroom⟩
  rw [afterStore_eq, store_ok_stored he hok, Option.bind_some, unescape, cString_stored he]
  exact unquote_quote backslash data

-- the first report ends between the two backslashes of the last pair
theorem raw_lossless_backslashes :
    ((afterStore plainBuild (Env.prompt fun _ => 33) Session.fresh plainKeyboard
      (escape (List.replicate 16 backslash))).stored 0).bind unescape =
        some (List.replicate 16 backslash) :=
  (raw_lossless plainBuild).1 (Env.prompt fun _ => 33) Session.fresh plainKeyboard
    (List.replicate 16 backslash) (by decide) (by decide) (fun _ _ => prompt_write _)
    ⟨rfl, fun _ => rfl⟩

lemma joinLoop_first (ss : Bytes) (args : List Bytes) : joinLoop true ss args = ss ++ args.flatten := by
  induction args generalizing ss with
  | nil => simp [joinLoop]
  | cons arg args ih => rw [joinLoop, if_pos rfl, ih, List.append_assoc, List.flatten_cons]

lemma data_flatten {opts : Options} (h : opts.unmatched ≠ []) :
    opts.data = if opts.raw then escape opts.unmatched.flatten else opts.unmatched.flatten := by
  rw [Options.data, Options.given, if_pos (List.length_pos_iff.mpr h), joinLoop_first, List.nil_append]

lemma intercalate_length (x : UInt8) (args : List Bytes) :
    ([x].intercalate args).length = args.flatten.length + (args.length - 1) := by
  induction args with
  | nil => rfl
  | cons arg args ih =>
    cases args with
    | nil => simp
    | cons next args =>
      have hflat : (arg :: next :: args).flatten = arg ++ (next :: args).flatten := List.flatten_cons
      rw [List.intercalate_cons_cons, List.length_append, List.length_append, ih, hflat, List.length_append]
      simp only [List.length_cons, List.length_nil]
      omega

def WordsApart (opts : Options) : Prop :=
  ∃ text, opts.data = (if opts.raw then escape text else text) ∧
    text = [space].intercalate opts.unmatched ∧
    ((∀ arg ∈ opts.unmatched, arg ≠ [] ∧ space ∉ arg) → text.splitOn space = opts.unmatched)

/-- The loop takes every argument for the first one. -/
theorem words_apart_iff (opts : Options) (h : opts.unmatched ≠ []) :
    WordsApart opts ↔ opts.unmatched.length = 1 := by
  constructor
  · rintro ⟨text, hdata, hjoined, -⟩
    rw [data_flatten h] at hdata
    have htext : opts.unmatched.flatten = text := by
      split_ifs at hdata
      · exact quote_injective backslash hdata
      · exact hdata
    have hlen := intercalate_length space opts.unmatched
    rw [← hjoined, htext] at hlen
    have hpos := List.length_pos_iff.mpr h
    omega
  · intro hone
    obtain ⟨arg, harg⟩ := List.length_eq_one_iff.mp hone
    refine ⟨opts.unmatched.flatten, data_flatten h, ?_, ?_⟩
    · simp [harg]
    · intro hwords
      have hsplit := List.splitOn_intercalate space (fun arg hm => (hwords arg hm).2) h
      rwa [show [space].intercalate opts.unmatched = opts.unmatched.flatten by simp [harg]] at hsplit

def twoWords : Options := ⟨false, [], false, 0, 0, [[97], [98]], false, []⟩

theorem words_run_together : ¬ WordsApart twoWords := by
  rintro ⟨text, hdata, hjoined, -⟩
  subst hjoined
  revert hdata
  decide

theorem words_apart_greeting : WordsApart greeting := (words_apart_iff greeting (by decide)).mpr rfl

end KbReg.Cli
