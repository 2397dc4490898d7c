import CircuitDocs.Proofs.Command.Format
import CircuitDocs.Proofs.Report.Decoding

/-! # Nothing is lost in JSON

A report that is put out as JSON is a document in ASCII, printed or saved, from which all of it can
be read back. Reports that differ are never put out as the same text.
-/

namespace CircuitDocs.Command

variable {console : Console} {disk : Disk} {here argv : List Text} {a : Arguments} {target : Path}
  {files : List Path}

theorem encode_of_ascii {t : Text} (h : Json.Ascii t) :
    Utf8.encode t = t.map fun c => UInt8.ofNat c.toNat := by
  induction t with
  | nil => rfl
  | cons c t ih =>
    obtain ⟨hc, ht⟩ := Json.ascii_cons.mp h
    have hbyte : String.utf8EncodeChar c = [UInt8.ofNat c.toNat] := by
      rw [String.utf8EncodeChar]
      exact if_pos (Nat.le_of_lt_succ hc)
    rw [Utf8.encode, List.flatMap_cons, hbyte, List.map_cons, ← ih ht]
    rfl

theorem Reaches.run_eq_emit (h : Reaches disk here argv a target files)
    (hdisk : disk.root.nullFree = true) (hformat : a.format? = some .json) :
    run console disk here argv =
      emit console disk here a target (.ofFiles a.config disk.read files) := by
  rw [h.run_eq, lint_eq_emit hformat (h.ofDisk_eq hdisk a.config)]

/-- Whatever the reports, totals and errors are, their payload is written as a document in ASCII
that stands for it and for nothing else. The decoder gives the payload back, in which they are all
found again; so texts are the same only if payloads are, and payloads only if what is in them is.
This text is what is saved, byte for byte, and what is printed with a line break behind it, for
every report and so for those of all runs. -/
theorem payload_lossless (reports reports' : List FileReport) (summary summary' : RunSummary)
    (errors errors' : List ReadError) :
    let p := payload reports summary errors
    let p' := payload reports' summary' errors'
    Json.Ascii p.render ∧
      (∀ v, Json.Document v p.render ↔ v = p.toValue) ∧
      Json.decode p.render = some p.toValue ∧
      ofPayload? p.toValue = some (reports.map (·.canonical), summary, errors) ∧
      (p.render = p'.render ↔ p = p') ∧
      (p = p' ↔ reports.map (·.canonical) = reports'.map (·.canonical) ∧ summary = summary' ∧
        errors = errors') ∧
      (∀ (r : RunReport) (console : Console) (disk : Disk) (here : List Text) (a : Arguments)
        (target : Path), a.format? = some .json →
        let text := (payload r.reports r.summary r.errors).render
        (a.output? = none → emit console disk here a target r =
          (disk, .ok
            { status := statusOf r, stdout := text ++ ['\n'], stderr := errorLines r })) ∧
        ∀ output, a.output? = some output →
          (disk.write here (Path.ofText output) []).2 = .ok () →
          (emit console disk here a target r).1.locate (Path.ofText output) here =
            .ok (.file (text.map fun c => UInt8.ofNat c.toNat))) ∧
      ∀ (console : Console) (disk : Disk) (here argv : List Text) (a : Arguments) (target : Path)
        (files : List Path), Reaches disk here argv a target files → disk.root.nullFree = true →
        a.format? = some .json →
        run console disk here argv =
          emit console disk here a target (.ofFiles a.config disk.read files) := by
  intro p p'
  refine ⟨p.ascii_render, fun v => ?_, p.decode_render, ofPayload?_payload _ _ _,
    Json.render_injective.eq_iff, payload_eq_iff, fun r console disk here a target hformat => ?_,
    fun console disk here argv a target files h hdisk hformat => h.run_eq_emit hdisk hformat⟩
  · rw [← Json.decode_eq_some_iff, p.decode_render, Option.some_inj, eq_comm]
  · intro text
    have htext : text = r.toJson.render := by rw [r.toJson_eq]
    rw [← encode_of_ascii (Json.ascii_render _), htext]
    exact ⟨fun houtput => emit_json hformat houtput r,
      fun output houtput hwrite => (emit_saved hformat houtput hwrite r).2⟩

/-- A report whose message has a quote, a backslash, control characters, and characters of the basic
plane and beyond it. -/
def motley : RunReport where
  reports := [{
    file := "a.compact".toList
    verdicts := [{
      circuit := "pay".toList, file := "a.compact".toList, line := 3, valid := false,
      issues := [.warning ['\x22', '\\', '\n', '\x00', '\x7f', 'é', '😀'] 2 "@param".toList] }]
    summary := ⟨"a.compact".toList, 1, 0, 1, 1, 0⟩ }]
  errors := []

def bare : Disk where
  root := .file "pay.compact".toList (Utf8.encode "export circuit pay(): [] \x7b".toList) .empty

theorem payload_lossless_motley :
    let text := (payload motley.reports motley.summary motley.errors).render
    let saving : Arguments := { format := .given .json, output := .given "/out.json".toList }
    let printing := ["--format=json", "/pay.compact"].map String.toList
    let r := RunReport.ofFiles {} bare.read [.absolute ["pay.compact".toList]]
    "\x22\\\x22\\\\\\n\\u0000\\u007f\\u00e9\\ud83d\\ude00\x22".toList <:+: text ∧
      (Json.decode text).bind ofPayload? = some (motley.reports, motley.summary, motley.errors) ∧
      text ≠ (payload [] motley.summary motley.errors).render ∧
      (bare.write [] (.ofText "/out.json".toList) []).2 = .ok () ∧
      (emit .wide bare [] saving (.absolute []) motley).1.locate (.ofText "/out.json".toList) [] =
        .ok (.file (text.map fun c => UInt8.ofNat c.toNat)) ∧
      bare.root.nullFree = true ∧
      run .wide bare [] printing =
        (bare, .ok
          { status := 1, stdout := (payload r.reports r.summary r.errors).render ++ ['\n'] }) := by
  intro text saving printing r
  have hwrite : (bare.write [] (.ofText "/out.json".toList) []).2 = .ok () := by decide +kernel
  have hdisk : bare.root.nullFree = true := by decide
  let asked : Arguments := { format := .given .json, target := some "/pay.compact".toList }
  have hreaches : Reaches bare [] printing asked (.absolute ["pay.compact".toList])
      [.absolute ["pay.compact".toList]] :=
    ⟨⟨by decide +kernel, by decide, by decide +kernel⟩, by decide +kernel⟩
  have hcanonical : motley.reports.map (·.canonical) = motley.reports := by decide +kernel
  have hstatus : statusOf r = 1 := by decide +kernel
  have herrors : errorLines r = [] := by decide +kernel
  obtain ⟨-, -, hdecode, hread, hrender, hpayload, hemit, hrun⟩ :=
    payload_lossless motley.reports [] motley.summary motley.summary motley.errors motley.errors
  refine ⟨by decide +kernel, ?_, ?_, hwrite, ?_, hdisk, ?_⟩
  · rw [hdecode, Option.bind_some, hread, hcanonical]
  · rw [ne_eq, hrender, hpayload, hcanonical]
    decide
  · exact (hemit motley .wide bare [] saving (.absolute []) rfl).2 _ rfl hwrite
  · have hprint := (hemit r .wide bare [] asked (.absolute ["pay.compact".toList]) rfl).1 rfl
    rw [hstatus, herrors] at hprint
    exact (hrun _ _ _ _ _ _ _ hreaches hdisk rfl).trans hprint

end CircuitDocs.Command
