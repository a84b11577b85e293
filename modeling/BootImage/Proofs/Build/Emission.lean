import BootImage.Output.Medium
import BootImage.Proofs.Output.Emission
import BootImage.Proofs.Pe.Contents

/-!
# Putting an image into an output

An output is left alone until its image is there. Then the image goes into it in the order that images
go into outputs, whatever parts of it the output takes at once, and wherever it fails.

- `length_image_lt`: the size of an image is that of a buffer.
- `Traces`: two runs for an output, the second of which keeps a trace; `traces_emit`: emitting an image.
- `generate_traced`: what an output is asked by a build, and the answer that the build gives.
-/

namespace BootImage.Build

open Emission

/-! ## §1 The size of an image -/

section Size

variable {files : FileSystem} {codecs : Codecs} {loader : Kernel.Loader}
  {configuration : Configuration} {out : Bytes}

/-- Memory is found for a stub and what it unpacks. -/
theorem length_finishedCore_lt {plan : ModuleRegion.Plan} {kernelSize : Nat} {unpacked finished : Bytes}
    (hstub : configuration.target.hasStub = true)
    (h : finishedCore files codecs configuration plan kernelSize unpacked = .ok finished) :
    finished.length < Size.bufferBound := by
  obtain ⟨packed, -, h⟩ := bind_eq_ok_iff.1 h
  rw [if_pos hstub] at h
  obtain ⟨fields, -, h⟩ := bind_eq_ok_iff.1 h
  obtain ⟨name, -, h⟩ := bind_eq_ok_iff.1 h
  obtain ⟨stub, -, h⟩ := bind_eq_ok_iff.1 h
  obtain ⟨patched, -, h⟩ := bind_eq_ok_iff.1 h
  obtain ⟨_, hallocatable, h⟩ := bind_eq_ok_iff.1 h
  cases h
  -- The allocation is the last step, for the stub and the stream together.
  rw [List.length_append]
  exact (Size.allocatable_eq_ok_iff.1 hallocatable).1

/-- A raw image is as long as its core image, and a PE application is counted with 32 bits. -/
theorem length_wrap_lt {core : Bytes} {layout : Kernel.Layout} {modulesSize : Nat}
    {metadata : Option Path} (hcore : core.length < Size.bufferBound)
    (h : Container.wrap files configuration.target core layout modulesSize metadata = .ok out) :
    out.length < Size.bufferBound := by
  cases ht : configuration.target.container with
  | raw =>
    obtain ⟨-, -, rfl⟩ := (wrap_raw_eq_ok_iff ht).1 h
    exact hcore
  | pe machine =>
    have hbound : Size.bound32 ≤ Size.bufferBound := by decide
    -- The size of a PE image is one of the numbers of its headers.
    obtain ⟨-, hfeasible, headers, hheaders, rfl⟩ := (Pe.wrap_pe_eq_ok_iff ht).1 h
    have hsize := Nat.lt_of_lt_of_le hfeasible.counted_exact.imageSize hbound
    exact lt_of_eq_of_lt (Pe.length_image_exact (Pe.length_headers_exact hheaders)) hsize

/-- **The size of an image** is that of a buffer. -/
theorem length_image_lt (h : image files codecs loader configuration = .ok out) :
    out.length < Size.bufferBound := by
  obtain ⟨hplannable, loaded, -, husable, unpacked, hunpacked, finished, hfinished, hwrap⟩ :=
    image_eq_ok_iff.1 h
  refine length_wrap_lt ?_ hwrap
  cases hstub : configuration.target.hasStub with
  | true => exact length_finishedCore_lt hstub hfinished
  | false =>
    -- The kernel and the region were found memory for when the kernel was fitted to the region.
    rw [unpackedCore_noStub hstub hplannable husable] at hunpacked
    cases hunpacked
    rw [finishedCore_noStub hstub] at hfinished
    rw [Target.length_of_patch hfinished, hplannable.length_core husable]
    exact husable.allocatable

end Size

/-! ## §2 Emitting an image -/

section Emitting

variable {σ : Type} {image : Bytes} {sync : Bool} {name : String} {trace : Trace} {state : σ}

/-- Two runs for an output, the second of which keeps a trace: they end alike, and the trace leads to
the stage at which the image stays. -/
structure Traces (image : Bytes) (sync : Bool) (name : String) (run : Result Unit × σ)
    (traced : Result Unit × σ × Trace) : Prop where
  alike : (traced.1, traced.2.1) = run
  reaches : ∃ stage, Reaches image sync traced.2.2 stage ∧ stage.Ends sync name run.1

/-- Finishing an output: it is flushed, and then synced if that was asked for. What fails is the last
thing that is done. -/
theorem traces_finish (device : Device σ) (written : Nat) (h : Reaches image sync trace (.writing [])) :
    Traces image sync name (Writer.finish device.output ⟨state, name, sync, written⟩)
      (Writer.finish device.traced.output ⟨(state, trace), name, sync, written⟩) := by
  -- The traced device answers as the device does, so the two runs take the same branches.
  obtain ⟨flushed, hflush, hflushed⟩ := h.after_flush device state
  simp only [Writer.finish, Device.output, hflush]
  generalize device.flush state = run at hflushed ⊢
  obtain ⟨_ | _, next⟩ := run
  case error failure => exact ⟨rfl, _, hflushed, .stopped⟩
  case ok =>
    cases sync with
    | false => exact ⟨rfl, _, hflushed, .flushed rfl⟩
    | true =>
      obtain ⟨synced, hsync, hsynced⟩ := Reaches.after_sync device next hflushed
      simp only [if_true, hsync]
      generalize device.sync next = run at hsynced ⊢
      obtain ⟨_ | _, last⟩ := run
      case error failure => exact ⟨rfl, _, hsynced, .stopped⟩
      case ok => exact ⟨rfl, _, hsynced, .synced⟩

/-- An image that can be counted is put into the output, which is finished then. -/
theorem emit_ok {out : Output σ} (h : image.length < Size.bound) :
    emit out state name sync (.ok image) =
      match out.put state image with
      | (.error failure, next) => (.error (Writer.named name "write to" failure), next)
      | (.ok (), next) => Writer.finish out ⟨next, name, sync, image.length⟩ := by
  have hcount : Size.add 0 image.length = .ok image.length := by
    rw [Size.add_of_lt (by omega), Nat.zero_add]
  rw [emit, Writer.write]
  generalize out.put state image = run
  obtain ⟨_ | _, next⟩ := run
  case error failure => rfl
  case ok => simp only [hcount]

/-- **Emitting an image** ends alike with a trace and without. -/
theorem traces_emit (device : Device σ) (state : σ) (h : image.length < Size.bound) :
    Traces image sync name (emit device.output state name sync (.ok image))
      (emit device.traced.output (state, []) name sync (.ok image)) := by
  have hstart : Reaches image sync [] (.writing image) := .start
  -- Putting the image in leads to a stage at which it has been accepted, or to the end at which the
  -- device stopped.
  obtain ⟨written, hput, hwritten⟩ := hstart.after_putAll device state
  rw [emit_ok h, emit_ok h]
  simp only [Device.output, hput]
  generalize device.putAll state image = run at hwritten ⊢
  obtain ⟨_ | _, next⟩ := run
  case error failure => exact ⟨rfl, _, hwritten, .stopped⟩
  case ok => exact traces_finish device image.length hwritten

/-- Two bytes at once, and no stable storage. -/
example :
    let run := emit (Medium.device { chunk := some 2, syncError := some "gone" }).traced.output
      ({}, []) "a.img" true (.ok [1, 2, 3])
    run.1 = refuse (.host "sync" ⟨"a.img"⟩ (.other "gone")) ∧
      run.2.2 = [.write [1, 2, 3] (.ok 2), .write [3] (.ok 1), .flush (.ok ()),
        .sync (.error (.reported (.other "gone")))] := by
  refine ⟨?_, ?_⟩ <;> cbv

end Emitting

/-! ## §3 Builds -/

/-- **What a build asks of its output.** A build that fails leaves the output alone. Any other build
puts its image into the output, in the order of `Emitted`; and it answers alike with a trace and
without. -/
theorem generate_traced {σ : Type} (files : FileSystem) (codecs : Codecs) (loader : Kernel.Loader)
    (configuration : Configuration) (device : Device σ) (state : σ) (name : String) :
    ∃ answer after trace,
      generate files codecs loader configuration device.output state name = (answer, after) ∧
      generate files codecs loader configuration device.traced.output (state, []) name =
        (answer, after, trace) ∧
      match image files codecs loader configuration with
      | .error failure => answer = .error failure ∧ after = state ∧ trace = []
      | .ok bytes => Emitted bytes configuration.sync name trace answer := by
  unfold generate
  cases himage : image files codecs loader configuration with
  | error failure => exact ⟨.error failure, state, [], rfl, rfl, rfl, rfl, rfl⟩
  | ok bytes =>
    have hbound : Size.bufferBound ≤ Size.bound := by decide
    have htraces : Traces bytes configuration.sync name _ _ :=
      traces_emit device state (Nat.lt_of_lt_of_le (length_image_lt himage) hbound)
    -- The run with a trace goes through the same stages, and its last one says what the trace looks
    -- like.
    obtain ⟨halike, stage, hreaches, hends⟩ := htraces
    refine ⟨_, _, _, halike.symm, rfl, ?_⟩
    rw [← halike] at hends
    exact hreaches.emitted hends

end BootImage.Build
