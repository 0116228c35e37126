import LocalTable.Hierarchy

/-!
# The classes of the platform

The part of the platform that commonly shows up where paths of control meet:
texts, boxed numbers, the usual exceptions, and collections.  Programs that need
more of it supply a library.
-/

namespace LocalTable.Platform

/-- An interface of the platform that extends the given ones. -/
def interface (name : BinaryName) (interfaces : List BinaryName) : ClassData :=
  ⟨name, some .object, interfaces, true⟩

/-- A class of the platform. -/
def subclass (name superclass : BinaryName) (interfaces : List BinaryName) : ClassData :=
  ⟨name, some superclass, interfaces, false⟩

def serializable : BinaryName := .known "java/io/Serializable"
def cloneable : BinaryName := .known "java/lang/Cloneable"
def comparable : BinaryName := .known "java/lang/Comparable"
def charSequence : BinaryName := .known "java/lang/CharSequence"
def appendable : BinaryName := .known "java/lang/Appendable"
def runnable : BinaryName := .known "java/lang/Runnable"
def autoCloseable : BinaryName := .known "java/lang/AutoCloseable"
def iterable : BinaryName := .known "java/lang/Iterable"
def collection : BinaryName := .known "java/util/Collection"
def list : BinaryName := .known "java/util/List"
def map : BinaryName := .known "java/util/Map"
def abstractStringBuilder : BinaryName := .known "java/lang/AbstractStringBuilder"
def number : BinaryName := .known "java/lang/Number"
def failure : BinaryName := .known "java/lang/Error"
def exception : BinaryName := .known "java/lang/Exception"
def runtimeException : BinaryName := .known "java/lang/RuntimeException"
def indexOutOfBounds : BinaryName := .known "java/lang/IndexOutOfBoundsException"
def abstractCollection : BinaryName := .known "java/util/AbstractCollection"
def abstractList : BinaryName := .known "java/util/AbstractList"
def abstractMap : BinaryName := .known "java/util/AbstractMap"

/-- The interfaces of the platform. -/
def interfaces : List ClassData :=
  [ interface serializable [],
    interface cloneable [],
    interface comparable [],
    interface charSequence [],
    interface appendable [],
    interface runnable [],
    interface autoCloseable [],
    interface (.known "java/io/Closeable") [autoCloseable],
    interface iterable [],
    interface (.known "java/util/Iterator") [],
    interface collection [iterable],
    interface list [collection],
    interface map [] ]

/-- Texts, classes, threads and the like. -/
def basics : List ClassData :=
  [ ⟨.object, none, [], false⟩,
    subclass .string .object [serializable, comparable, charSequence],
    subclass abstractStringBuilder .object [appendable, charSequence],
    subclass (.known "java/lang/StringBuilder") abstractStringBuilder
      [serializable, charSequence],
    subclass .classObject .object [serializable],
    subclass (.known "java/lang/System") .object [],
    subclass (.known "java/lang/Thread") .object [runnable],
    subclass (.known "java/lang/Enum") .object [comparable, serializable],
    subclass .methodHandle .object [],
    subclass .methodType .object [serializable] ]

/-- Numbers and other primitive values as objects. -/
def boxes : List ClassData :=
  [ subclass number .object [serializable],
    subclass (.known "java/lang/Byte") number [comparable],
    subclass (.known "java/lang/Short") number [comparable],
    subclass (.known "java/lang/Integer") number [comparable],
    subclass (.known "java/lang/Long") number [comparable],
    subclass (.known "java/lang/Float") number [comparable],
    subclass (.known "java/lang/Double") number [comparable],
    subclass (.known "java/lang/Boolean") .object [serializable, comparable],
    subclass (.known "java/lang/Character") .object [serializable, comparable] ]

/-- What programs usually throw. -/
def throwables : List ClassData :=
  [ subclass .throwable .object [serializable],
    subclass failure .throwable [],
    subclass (.known "java/lang/AssertionError") failure [],
    subclass exception .throwable [],
    subclass (.known "java/io/IOException") exception [],
    subclass runtimeException exception [],
    subclass (.known "java/lang/ArithmeticException") runtimeException [],
    subclass (.known "java/lang/ClassCastException") runtimeException [],
    subclass (.known "java/lang/IllegalArgumentException") runtimeException [],
    subclass (.known "java/lang/IllegalStateException") runtimeException [],
    subclass indexOutOfBounds runtimeException [],
    subclass (.known "java/lang/NullPointerException") runtimeException [],
    subclass (.known "java/lang/UnsupportedOperationException") runtimeException [],
    subclass (.known "java/lang/ArrayIndexOutOfBoundsException") indexOutOfBounds [] ]

/-- Collections. -/
def collections : List ClassData :=
  [ subclass abstractCollection .object [collection],
    subclass abstractList abstractCollection [list],
    subclass (.known "java/util/ArrayList") abstractList [list, cloneable, serializable],
    subclass abstractMap .object [map],
    subclass (.known "java/util/HashMap") abstractMap [map, cloneable, serializable] ]

/-- The tier of the platform. -/
def tier : Tier :=
  ⟨"platform", basics ++ interfaces ++ boxes ++ throwables ++ collections⟩

end LocalTable.Platform

namespace LocalTable.Hierarchy

/-- The artifact, then the libraries, then the platform. -/
def withPlatform (artifact : Tier) (libraries : List Tier) : Hierarchy :=
  ⟨artifact :: libraries ++ [Platform.tier]⟩

end LocalTable.Hierarchy
