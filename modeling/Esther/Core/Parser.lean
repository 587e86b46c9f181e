import Esther.Core.Structures

/-!
# The Parser Library

The AnSISOP parser is a library outside the repository. The kernel uses it to
turn the text of a program into its metadata, and the CPU hands it one line at a
time together with a table of functions it is to call.

Nothing is assumed about what the library answers. A line becomes a `Linea`: the
calls the parser makes for it, each followed by what it does with the result. A
call is a node and the continuation takes what the called function returned, so
the order of calls may depend on the values seen so far.

## Main definitions

* `MetadataProgram`: `t_metadata_program`, the fields the kernel reads.
* `Linea`: The calls made for one line.
* `Parser`: The functions of the library, and its `LINE_SIZE`.
-/

namespace Esther

/-- `t_metadata_program`. `etiquetas` is the serialized block of labels. -/
structure MetadataProgram where
  instruccionInicio : Int
  instruccionesSize : Int
  instruccionesSerializado : List Instruction
  etiquetasSize : Int
  etiquetas : Buf
  cantidadDeFunciones : Int
  cantidadDeEtiquetas : Int

/-- The calls the parser makes for a line, through `AnSISOP_funciones` and
    `AnSISOP_kernel`. -/
inductive Linea
  | fin
  | definirVariable (identificador : Int) (sigue : Int → Linea)
  | obtenerPosicionVariable (identificador : Int) (sigue : Int → Linea)
  | dereferenciar (direccion : Int) (sigue : Int → Linea)
  | asignar (direccion valor : Int) (sigue : Linea)
  | obtenerValorCompartida (nombre : List UInt8) (sigue : Int → Linea)
  | asignarValorCompartida (nombre : List UInt8) (valor : Int) (sigue : Int → Linea)
  | irAlLabel (etiqueta : List UInt8) (sigue : Linea)
  | llamarConRetorno (etiqueta : List UInt8) (dondeRetornar : Int) (sigue : Linea)
  | llamarSinRetorno (etiqueta : List UInt8) (sigue : Linea)
  | retornar (retorno : Int) (sigue : Linea)
  | finalizar (sigue : Linea)
  | signal (identificador : List UInt8) (sigue : Linea)
  | wait (identificador : List UInt8) (sigue : Linea)

/-- The library. `metadata_desde_literal` reads a string through a pointer, and
    `metadata_buscar_etiqueta` looks a name up in a block of labels. -/
structure Parser where
  lineSize : Nat
  metadataDesdeLiteral : Buf → MetadataProgram
  metadataBuscarEtiqueta : List UInt8 → Buf → Int → Int
  analizadorLinea : List UInt8 → Linea

end Esther
