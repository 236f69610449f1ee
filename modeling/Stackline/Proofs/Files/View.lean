import Stackline.Command.Report
import Stackline.Files.Tree

/-!
# Looking at files

Commands run in any monad with files.  A statement about what a command comes to needs
a way to look at the outcome, and it needs to know what the files hold.  A `FileView`
gives both: under it reading a file yields a fixed content and changes nothing.  A
tree of files in memory has such a view, and so has every other file system that stays
as it is while it is read.
-/

namespace Stackline

/-- A way to look at what computations come to, under which every file has a fixed
content. -/
structure FileView (m : Type → Type) [Monad m] [MonadFiles m] where
  contents : String → Except FileFault ByteArray
  result : {α : Type} → m α → α
  result_pure : ∀ {α : Type} (a : α), result (pure a) = a
  result_readFile : ∀ {α : Type} (path : String) (next : Except FileFault ByteArray → m α),
    result (MonadFiles.readFile path >>= next) = result (next (contents path))

/-- The files of a tree, and what a computation comes to that starts with them. -/
def FileTree.view (t : FileTree) : FileView (StateM FileTree) where
  contents := t.read
  result x := (x.run t).1
  result_pure _ := rfl
  result_readFile _ _ := rfl

namespace FileView

variable {m : Type → Type} [Monad m] [MonadFiles m]

/-- The text of a file. -/
def text (view : FileView m) (path : String) : Except FileFault String :=
  view.contents path >>= decodeText

/-- The settings that a file gives. -/
def settings (view : FileView m) (path : String) : Except SettingsError Settings :=
  match view.text path with
  | .ok text => Settings.parse path text
  | .error fault => .error (.unreadable path fault)

variable [LawfulMonad m] (view : FileView m) {α : Type}

theorem result_readText_bind
    (path : String) (next : Except FileFault String → m α) :
    view.result (readText path >>= next) = view.result (next (view.text path)) := by
  rw [readText, bind_assoc, view.result_readFile, text]
  cases view.contents path with
  | ok bytes => exact congrArg view.result (pure_bind _ _)
  | error fault => exact congrArg view.result (pure_bind _ _)

theorem result_loadFile_bind
    (path : String) (next : Except SourceError (List String) → m α) :
    view.result (Source.loadFile path >>= next) =
      view.result (next (((view.text path).mapError (.unreadable path)).map Source.load)) := by
  simp only [Source.loadFile, Source.readSource, bind_assoc, pure_bind]
  exact view.result_readText_bind path _

theorem result_loadSettings_bind
    (path : String) (next : Except SettingsError Settings → m α) :
    view.result (Settings.load path >>= next) = view.result (next (view.settings path)) := by
  rw [Settings.load, bind_assoc, result_readText_bind, settings]
  cases view.text path with
  | ok text => exact congrArg view.result (pure_bind _ _)
  | error fault => exact congrArg view.result (pure_bind _ _)

/-- What follows on the settings of a run depends on what they come to. -/
theorem result_runSettings_bind
    (o : RunOptions) (next : Except SettingsError Settings → m α) :
    view.result (Command.runSettings o >>= next) =
      view.result (next (view.result (Command.runSettings o))) := by
  unfold Command.runSettings
  cases o.config with
  | none => simp only [pure_bind, view.result_pure]
  | some path => simp only [bind_assoc, pure_bind, result_loadSettings_bind, view.result_pure]

end FileView

end Stackline
